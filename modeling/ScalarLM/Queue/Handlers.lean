import Mathlib.Data.List.Sort
import ScalarLM.Queue.AckQueue

/-! What the handlers of the inference API and its clients compute between two of
their awaits. -/

namespace ScalarLM.Queue

inductive RequestType where
  | generate
  | embed
  deriving DecidableEq, Repr

/-- An item of the inference work queue. `finish_work` adds the response or the error. -/
structure Item (R : Type) where
  prompt : String
  model : String
  maxTokens : Option Int
  requestType : RequestType
  response : Option R
  error : Option String

structure WorkRequest where
  prompt : String
  requestId : Nat
  requestType : RequestType
  model : String
  maxTokens : Option Int

structure FinishRequest (R : Type) where
  requestId : Nat
  response : Option R
  error : Option String

structure Result (R : Type) where
  requestId : Nat
  response : Option R
  error : Option String

variable {R : Type}

def generateItem (model : String) (maxTokens : Option Int) (prompt : String) : Item R where
  prompt := prompt
  model := model
  maxTokens := maxTokens
  requestType := .generate
  response := none
  error := none

def embedItem (model prompt : String) : Item R where
  prompt := prompt
  model := model
  maxTokens := none
  requestType := .embed
  response := none
  error := none

def getWorkResponse (id : Nat) (item : Item R) : WorkRequest where
  prompt := item.prompt
  requestId := id
  requestType := item.requestType
  model := item.model
  maxTokens := item.maxTokens

def finishItem (request : FinishRequest R) (item : Item R) : Item R :=
  { item with
    response := request.response.or item.response
    error := request.error.or item.error }

section Methods

variable {Store : Type} (queue : AckQueue Store (Item R))

def getIfFinished (id : Nat) (store : Store) : Option (Item R) :=
  ((queue.queue store).find? fun row => row.id = id ∧ row.status = .acked).map Row.data

def updateAndAck (id : Nat) (item : Item R) (store : Store) : Store :=
  queue.ack id (queue.update id item store)

end Methods

/-- The server's `poll_for_responses`: its results so far, and the ids that the
current pass over all ids has not looked at yet. -/
structure Poll (R : Type) where
  requestIds : List Nat
  results : List (Result R)
  pending : List Nat

def Poll.start (requestIds : List Nat) : Poll R where
  requestIds := requestIds
  results := []
  pending := []

def Poll.responsesSoFar (poll : Poll R) : List Nat := poll.results.map Result.requestId

def Poll.next (getIfFinished : Nat → Option (Item R)) (poll : Poll R) : Poll R :=
  match poll.pending with
  | [] => poll
  | id :: rest =>
      if id ∈ poll.responsesSoFar then { poll with pending := rest }
      else
        match getIfFinished id with
        | none => { poll with pending := rest }
        | some item =>
            { poll with
              results := poll.results ++ [⟨id, item.response, item.error⟩]
              pending := rest }

def emptyResult (id : Nat) : Result R := ⟨id, none, none⟩

/-- Results without a response for the ids that did not finish, and all results in
the order of their ids. -/
def Poll.finish (poll : Poll R) : List (Result R) :=
  (poll.results ++ (poll.requestIds.filter (· ∉ poll.responsesSoFar)).map emptyResult).insertionSort
    fun left right => left.requestId ≤ right.requestId

def Poll.again (timedOut : Bool) (poll : Poll R) : Bool :=
  decide (poll.results.length < poll.requestIds.length) && !timedOut

/-- The SDK's `is_finished`, which raises on the first error it sees. -/
def isFinished : List (Result R) → Option Bool
  | [] => some true
  | result :: rest =>
      if result.error.isSome then none
      else if result.response.isNone then some false
      else isFinished rest

theorem isFinished_responses (results : List (Result R))
    (finished : isFinished results = some true) :
    ∀ result ∈ results, ∃ response, result.response = some response := by
  induction results with
  | nil => exact List.forall_mem_nil _
  | cons result rest ih =>
      rw [isFinished] at finished
      split at finished
      · cases finished
      · split at finished
        · cases finished
        · rename_i present
          intro other member
          rcases List.mem_cons.mp member with rfl | later
          · exact Option.ne_none_iff_exists'.mp fun missing => present (by rw [missing]; rfl)
          · exact ih finished other later

end ScalarLM.Queue
