import Mathlib.Logic.Function.Basic
import ScalarLM.Queue.Handlers

/-! The inference service: SDK calls, the API server's handlers, the inference work
queue and the worker loops, stepping in any order between their awaits. Calls,
handlers and workers are numbered, each call and each handler is used once. -/

namespace ScalarLM.Queue

/-- The API server's side of an SDK call: `generate` or `embed`, later `get_results`. -/
inductive CallHandler (R : Type) where
  | enqueuing (rest : List String)
  /-- In `poll_for_responses`; only `generate` and `embed` answer when it raises. -/
  | polling (poll : Poll R) (answers : Bool)
  | replied (results : List (Result R))
  | failed

inductive Client (R : Type) where
  | unstarted
  | waiting
  | received (results : List (Result R))
  | returned (responses : List (Option R))
  | raised

/-- `AsyncCray.generate` or `AsyncCray.embed`, with the server's side of it. -/
structure Call (R : Type) where
  requestType : RequestType
  prompts : List String
  model : String
  maxTokens : Option Int
  client : Client R
  handler : CallHandler R
  requestIds : List Nat

inductive GetWork where
  | unstarted
  | waiting (batchSize : Nat)
  | filling (left : Nat) (requests : List WorkRequest)
  | replied (requests : List WorkRequest)
  | failed

/-- The server's `finish_work`, before `get_id` and before `update_and_ack`. -/
inductive FinishWork (R : Type) where
  | unstarted
  | next (requests : List (FinishRequest R))
  | fetched (request : FinishRequest R) (item : Item R) (rest : List (FinishRequest R))
  | failed

/-- A worker's `get_work` loop: between two steps, or somewhere in `get_work_step`. -/
inductive Worker where
  | idle
  | awaitWork (handler : Nat)
  | generating (requests : List WorkRequest)
  | awaitFinish (requests : List WorkRequest) (handler : Nat)

/-- A put on the queue and the call it was for. -/
structure Accepted where
  call : Nat
  prompt : String
  id : Nat

/-- The last three fields are history: the accepted requests, the ids acked, and what
the calls of `finish_work` asked for. -/
structure Cluster (Store R : Type) where
  store : Store
  calls : Nat → Call R
  getWorks : Nat → GetWork
  finishWorks : Nat → FinishWork R
  workers : Nat → Worker
  accepted : List Accepted
  acked : List Nat
  posted : List (FinishRequest R)

variable {Store R : Type}

def GetWork.requests : GetWork → List WorkRequest
  | .filling _ requests => requests
  | .replied requests => requests
  | _ => []

def FinishWork.remaining : FinishWork R → List (FinishRequest R)
  | .next requests => requests
  | .fetched request _ rest => request :: rest
  | _ => []

def Call.item (call : Call R) (prompt : String) : Item R :=
  match call.requestType with
  | .generate => generateItem call.model call.maxTokens prompt
  | .embed => embedItem call.model prompt

def unusedCall : Call R where
  requestType := .generate
  prompts := []
  model := ""
  maxTokens := none
  client := .unstarted
  handler := .failed
  requestIds := []

inductive Event (R : Type) where
  | submit (call : Nat) (requestType : RequestType) (prompts : List String) (model : Option String)
      (maxTokens : Option Int)
  | enqueue (call : Nat)
  | enqueueRaises (call : Nat)
  | pollPass (call : Nat) (timedOut : Bool)
  | pollNext (call : Nat)
  | pollRaises (call : Nat)
  | receive (call : Nat)
  | check (call : Nat)
  | clientRaises (call : Nat)
  | startStep (worker handler batchSize : Nat)
  | dequeue (handler : Nat)
  | getWorkStops (handler : Nat)
  | receiveWork (worker : Nat)
  | postResults (worker handler : Nat) (results : List (Option R × Option String))
  | finishStep (worker : Nat)
  | stepRaises (worker : Nat)
  | postFinish (handler : Nat) (requests : List (FinishRequest R))
  | finishGet (handler : Nat)
  | finishUpdate (handler : Nat)
  | finishRaises (handler : Nat)
  | clearAcked
  | restartServer

section Calls

variable (queue : AckQueue Store (Item R)) (state : Cluster Store R)

def Cluster.setCall (number : Nat) (call : Call R) : Cluster Store R :=
  { state with calls := Function.update state.calls number call }

/-- The SDK posts a new request. The server looks the model up first and answers 404
if there is none; `embed` takes the model as it is. -/
def submit (number : Nat) (requestType : RequestType) (prompts : List String)
    (model : Option String) (maxTokens : Option Int) : Cluster Store R :=
  match (state.calls number).client with
  | .unstarted =>
      state.setCall number {
        requestType := requestType
        prompts := prompts
        model := model.getD ""
        maxTokens := maxTokens
        client := .waiting
        handler := match model with
          | some _ => .enqueuing prompts
          | none => .failed
        requestIds := [] }
  | _ => state

/-- Puts the next prompt on the queue; after the last one the polling starts. -/
def enqueue (number : Nat) : Cluster Store R :=
  let call := state.calls number
  match call.handler with
  | .enqueuing [] =>
      state.setCall number { call with handler := .polling (.start call.requestIds) true }
  | .enqueuing (prompt :: rest) =>
      let stored := queue.put (call.item prompt) state.store
      { state with
        store := stored.2
        accepted := state.accepted ++ [⟨number, prompt, stored.1⟩]
        calls := Function.update state.calls number { call with
          handler := .enqueuing rest
          requestIds := call.requestIds ++ [stored.1] } }
  | _ => state

def enqueueRaises (number : Nat) : Cluster Store R :=
  let call := state.calls number
  match call.handler with
  | .enqueuing _ => state.setCall number { call with handler := .failed }
  | _ => state

/-- Between two passes the poll starts another one or stops and replies. -/
def pollPass (number : Nat) (timedOut : Bool) : Cluster Store R :=
  let call := state.calls number
  match call.handler with
  | .polling poll answers =>
      match poll.pending with
      | [] =>
          state.setCall number { call with
            handler :=
              if poll.again timedOut then .polling { poll with pending := poll.requestIds } answers
              else .replied poll.finish }
      | _ :: _ => state
  | _ => state

def pollNext (number : Nat) : Cluster Store R :=
  let call := state.calls number
  match call.handler with
  | .polling poll answers =>
      state.setCall number { call with
        handler := .polling (poll.next fun id => getIfFinished queue id state.store) answers }
  | _ => state

def pollRaises (number : Nat) : Cluster Store R :=
  let call := state.calls number
  match call.handler with
  | .polling _ true =>
      state.setCall number { call with handler := .replied (call.requestIds.map emptyResult) }
  | .polling _ false => state.setCall number { call with handler := .failed }
  | _ => state

def receive (number : Nat) : Cluster Store R :=
  let call := state.calls number
  match call.client, call.handler with
  | .waiting, .replied results => state.setCall number { call with client := .received results }
  | _, _ => state

/-- The SDK looks at the reply and returns, raises or posts to `get_results`. -/
def check (number : Nat) : Cluster Store R :=
  let call := state.calls number
  match call.client with
  | .received results =>
      match isFinished results with
      | none => state.setCall number { call with client := .raised }
      | some true =>
          state.setCall number { call with client := .returned (results.map Result.response) }
      | some false =>
          state.setCall number { call with
            client := .waiting
            handler := .polling (.start (results.map Result.requestId)) false }
  | _ => state

/-- The server's side goes on without the client. -/
def clientRaises (number : Nat) : Cluster Store R :=
  let call := state.calls number
  match call.client with
  | .waiting => state.setCall number { call with client := .raised }
  | .received _ => state.setCall number { call with client := .raised }
  | _ => state

end Calls

section Work

variable (queue : AckQueue Store (Item R)) (state : Cluster Store R)

def Cluster.setWorker (worker : Nat) (phase : Worker) : Cluster Store R :=
  { state with workers := Function.update state.workers worker phase }

def startStep (worker handler batchSize : Nat) : Cluster Store R :=
  match state.workers worker, state.getWorks handler with
  | .idle, .unstarted =>
      { state with
        workers := Function.update state.workers worker (.awaitWork handler)
        getWorks := Function.update state.getWorks handler (.waiting batchSize) }
  | _, _ => state

/-- One `get` of the queue. The first request is asked for until there is one, a
later one only once. -/
def dequeue (handler : Nat) : Cluster Store R :=
  match state.getWorks handler with
  | .waiting batchSize =>
      match queue.get state.store with
      | (some (id, item), store) =>
          { state with
            store := store
            getWorks := Function.update state.getWorks handler
              (.filling (batchSize - 1) [getWorkResponse id item]) }
      | (none, _) => state
  | .filling 0 requests =>
      { state with getWorks := Function.update state.getWorks handler (.replied requests) }
  | .filling (left + 1) requests =>
      match queue.get state.store with
      | (some (id, item), store) =>
          { state with
            store := store
            getWorks := Function.update state.getWorks handler
              (.filling left (requests ++ [getWorkResponse id item])) }
      | (none, _) =>
          { state with getWorks := Function.update state.getWorks handler (.replied requests) }
  | _ => state

/-- The wait for a first request times out, or the handler catches an exception:
either way it replies with what it has. -/
def getWorkStops (handler : Nat) : Cluster Store R :=
  match state.getWorks handler with
  | .waiting _ => { state with getWorks := Function.update state.getWorks handler (.replied []) }
  | .filling _ requests =>
      { state with getWorks := Function.update state.getWorks handler (.replied requests) }
  | _ => state

def receiveWork (worker : Nat) : Cluster Store R :=
  match state.workers worker with
  | .awaitWork handler =>
      match state.getWorks handler with
      | .replied [] => state.setWorker worker .idle
      | .replied (request :: rest) => state.setWorker worker (.generating (request :: rest))
      | _ => state
  | _ => state

def completions (requests : List WorkRequest) (results : List (Option R × Option String)) :
    List (FinishRequest R) :=
  List.zipWith (fun request result => ⟨request.requestId, result.1, result.2⟩) requests results

/-- All tasks of the step have their results, which go to `finish_work`. -/
def postResults (worker handler : Nat) (results : List (Option R × Option String)) :
    Cluster Store R :=
  match state.workers worker, state.finishWorks handler with
  | .generating requests, .unstarted =>
      if results.length = requests.length then
        { state with
          workers := Function.update state.workers worker (.awaitFinish requests handler)
          finishWorks := Function.update state.finishWorks handler
            (.next (completions requests results))
          posted := state.posted ++ completions requests results }
      else state
  | _, _ => state

def finishStep (worker : Nat) : Cluster Store R :=
  match state.workers worker with
  | .awaitFinish _ handler =>
      match state.finishWorks handler with
      | .next [] => state.setWorker worker .idle
      | _ => state
  | _ => state

/-- The step raises, or its process dies and comes back: the loop starts anew. -/
def stepRaises (worker : Nat) : Cluster Store R := state.setWorker worker .idle

/-- A `finish_work` that no worker step waits for. -/
def postFinish (handler : Nat) (requests : List (FinishRequest R)) : Cluster Store R :=
  match state.finishWorks handler with
  | .unstarted =>
      { state with
        finishWorks := Function.update state.finishWorks handler (.next requests)
        posted := state.posted ++ requests }
  | _ => state

def Cluster.setFinish (handler : Nat) (phase : FinishWork R) : Cluster Store R :=
  { state with finishWorks := Function.update state.finishWorks handler phase }

def finishGet (handler : Nat) : Cluster Store R :=
  match state.finishWorks handler with
  | .next (request :: rest) =>
      match queue.getId request.requestId state.store with
      | (some item, store) =>
          { state with
            store := store
            finishWorks := Function.update state.finishWorks handler (.fetched request item rest) }
      | (none, _) => state.setFinish handler .failed
  | _ => state

def finishUpdate (handler : Nat) : Cluster Store R :=
  match state.finishWorks handler with
  | .fetched request item rest =>
      { state with
        store := updateAndAck queue request.requestId (finishItem request item) state.store
        acked := state.acked ++ [request.requestId]
        finishWorks := Function.update state.finishWorks handler (.next rest) }
  | _ => state

def finishRaises (handler : Nat) : Cluster Store R :=
  match state.finishWorks handler with
  | .unstarted => state
  | _ => state.setFinish handler .failed

end Work

section Step

variable (queue : AckQueue Store (Item R))

def initial : Cluster Store R where
  store := queue.empty
  calls := fun _ => unusedCall
  getWorks := fun _ => .unstarted
  finishWorks := fun _ => .unstarted
  workers := fun _ => .idle
  accepted := []
  acked := []
  posted := []

def GetWork.cut : GetWork → GetWork
  | .unstarted => .unstarted
  | _ => .failed

def FinishWork.cut : FinishWork R → FinishWork R
  | .unstarted => .unstarted
  | _ => .failed

/-- All handlers are gone, and the queue is opened again with `auto_resume`. -/
def restartServer (state : Cluster Store R) : Cluster Store R :=
  { state with
    store := queue.resumeUnackTasks state.store
    calls := fun number => { state.calls number with handler := .failed }
    getWorks := fun handler => (state.getWorks handler).cut
    finishWorks := fun handler => (state.finishWorks handler).cut }

def step (state : Cluster Store R) : Event R → Cluster Store R
  | .submit call requestType prompts model maxTokens =>
      submit state call requestType prompts model maxTokens
  | .enqueue call => enqueue queue state call
  | .enqueueRaises call => enqueueRaises state call
  | .pollPass call timedOut => pollPass state call timedOut
  | .pollNext call => pollNext queue state call
  | .pollRaises call => pollRaises state call
  | .receive call => receive state call
  | .check call => check state call
  | .clientRaises call => clientRaises state call
  | .startStep worker handler batchSize => startStep state worker handler batchSize
  | .dequeue handler => dequeue queue state handler
  | .getWorkStops handler => getWorkStops state handler
  | .receiveWork worker => receiveWork state worker
  | .postResults worker handler results => postResults state worker handler results
  | .finishStep worker => finishStep state worker
  | .stepRaises worker => stepRaises state worker
  | .postFinish handler requests => postFinish state handler requests
  | .finishGet handler => finishGet queue state handler
  | .finishUpdate handler => finishUpdate queue state handler
  | .finishRaises handler => finishRaises state handler
  | .clearAcked => { state with store := queue.clearAckedData state.store }
  | .restartServer => restartServer queue state

def Event.OnlyCalls : Event R → Prop
  | .submit _ _ _ _ _ => True
  | .enqueueRaises _ => True
  | .pollPass _ _ => True
  | .pollNext _ => True
  | .pollRaises _ => True
  | .receive _ => True
  | .check _ => True
  | .clientRaises _ => True
  | _ => False

theorem step_onlyCalls (state : Cluster Store R) (event : Event R) (only : event.OnlyCalls) :
    ∃ calls, step queue state event = { state with calls := calls } := by
  cases event with
  | submit call requestType prompts model maxTokens =>
      simp only [step, submit]
      split <;> exact ⟨_, rfl⟩
  | enqueueRaises call =>
      simp only [step, enqueueRaises]
      split <;> exact ⟨_, rfl⟩
  | pollPass call timedOut =>
      simp only [step, pollPass]
      split
      · split <;> exact ⟨_, rfl⟩
      · exact ⟨_, rfl⟩
  | pollNext call =>
      simp only [step, pollNext]
      split <;> exact ⟨_, rfl⟩
  | pollRaises call =>
      simp only [step, pollRaises]
      split <;> exact ⟨_, rfl⟩
  | receive call =>
      simp only [step, receive]
      split <;> exact ⟨_, rfl⟩
  | check call =>
      simp only [step, check]
      split
      · split <;> exact ⟨_, rfl⟩
      · exact ⟨_, rfl⟩
  | clientRaises call =>
      simp only [step, clientRaises]
      split <;> exact ⟨_, rfl⟩
  | _ => exact only.elim

def Event.OnlyLoops : Event R → Prop
  | .startStep _ _ _ => True
  | .getWorkStops _ => True
  | .receiveWork _ => True
  | .finishStep _ => True
  | .stepRaises _ => True
  | _ => False

theorem step_onlyLoops (state : Cluster Store R) (event : Event R) (only : event.OnlyLoops) :
    ∃ workers getWorks,
      step queue state event = { state with workers := workers, getWorks := getWorks } := by
  cases event with
  | startStep worker handler batchSize =>
      simp only [step, startStep]
      split <;> exact ⟨_, _, rfl⟩
  | getWorkStops handler =>
      simp only [step, getWorkStops]
      split <;> exact ⟨_, _, rfl⟩
  | receiveWork worker =>
      simp only [step, receiveWork]
      split
      · split <;> exact ⟨_, _, rfl⟩
      · exact ⟨_, _, rfl⟩
  | finishStep worker =>
      simp only [step, finishStep]
      split
      · split <;> exact ⟨_, _, rfl⟩
      · exact ⟨_, _, rfl⟩
  | stepRaises worker => exact ⟨_, _, rfl⟩
  | _ => exact only.elim

omit queue in
theorem fetched_of_update {finishWorks : Nat → FinishWork R} {handler other : Nat}
    {phase : FinishWork R} {request : FinishRequest R} {item : Item R}
    {rest : List (FinishRequest R)}
    (apart : ∀ request item rest, phase ≠ .fetched request item rest)
    (fetched : Function.update finishWorks other phase handler = .fetched request item rest) :
    finishWorks handler = .fetched request item rest := by
  by_cases hit : handler = other
  · subst hit
    rw [Function.update_self] at fetched
    exact absurd fetched (apart request item rest)
  · rwa [Function.update_of_ne hit] at fetched

def Event.OnlyPosts : Event R → Prop
  | .postResults _ _ _ => True
  | .postFinish _ _ => True
  | .finishRaises _ => True
  | _ => False

theorem step_onlyPosts (state : Cluster Store R) (event : Event R) (only : event.OnlyPosts) :
    ∃ workers finishWorks posted,
      step queue state event = { state with
        workers := workers
        finishWorks := finishWorks
        posted := posted } ∧
      ∀ handler request item rest, finishWorks handler = .fetched request item rest →
        state.finishWorks handler = .fetched request item rest := by
  have same : ∀ handler request item rest,
      state.finishWorks handler = .fetched request item rest →
        state.finishWorks handler = .fetched request item rest := fun _ _ _ _ => id
  have ends (other : Nat) (phase : FinishWork R)
      (apart : ∀ request item rest, phase ≠ .fetched request item rest) :
      ∀ handler request item rest,
        Function.update state.finishWorks other phase handler = .fetched request item rest →
          state.finishWorks handler = .fetched request item rest :=
    fun _ _ _ _ => fetched_of_update apart
  cases event with
  | postResults worker handler results =>
      simp only [step, postResults]
      split
      · split
        · exact ⟨_, _, _, rfl, ends handler _ (by simp)⟩
        · exact ⟨_, _, _, rfl, same⟩
      · exact ⟨_, _, _, rfl, same⟩
  | postFinish handler requests =>
      simp only [step, postFinish]
      split
      · exact ⟨_, _, _, rfl, ends handler _ (by simp)⟩
      · exact ⟨_, _, _, rfl, same⟩
  | finishRaises handler =>
      simp only [step, finishRaises]
      split
      · exact ⟨_, _, _, rfl, same⟩
      · exact ⟨_, _, _, rfl, ends handler _ (by simp)⟩
  | _ => exact only.elim

def GetWork.Asks : GetWork → Prop
  | .waiting _ => True
  | .filling (_ + 1) _ => True
  | _ => False

theorem dequeue_cases (state : Cluster Store R) (handler : Nat) :
    (∃ id item phase, (state.getWorks handler).Asks ∧
      (queue.get state.store).1 = some (id, item) ∧
      dequeue queue state handler = { state with
        store := (queue.get state.store).2
        getWorks := Function.update state.getWorks handler phase } ∧
      phase.requests = (state.getWorks handler).requests ++ [getWorkResponse id item]) ∨
    ((state.getWorks handler).Asks → (queue.get state.store).1 = none) ∧
      ∃ phase, dequeue queue state handler = { state with
          getWorks := Function.update state.getWorks handler phase } ∧
        phase.requests = (state.getWorks handler).requests := by
  have idle : ∃ phase, state = { state with
      getWorks := Function.update state.getWorks handler phase } ∧
        phase.requests = (state.getWorks handler).requests :=
    ⟨state.getWorks handler, by rw [Function.update_eq_self], rfl⟩
  unfold dequeue
  cases asked : state.getWorks handler with
  | waiting batchSize =>
      rw [asked] at idle
      cases found : queue.get state.store with
      | mk first store =>
          cases first with
          | none => exact Or.inr ⟨fun _ => rfl, idle⟩
          | some entry => exact Or.inl ⟨entry.1, entry.2, _, trivial, rfl, rfl, rfl⟩
  | filling left requests =>
      cases left with
      | zero => exact Or.inr ⟨False.elim, _, rfl, rfl⟩
      | succ left =>
          cases found : queue.get state.store with
          | mk first store =>
              cases first with
              | none => exact Or.inr ⟨fun _ => rfl, _, rfl, rfl⟩
              | some entry => exact Or.inl ⟨entry.1, entry.2, _, trivial, rfl, rfl, rfl⟩
  | unstarted =>
      rw [asked] at idle
      exact Or.inr ⟨False.elim, idle⟩
  | replied requests =>
      rw [asked] at idle
      exact Or.inr ⟨False.elim, idle⟩
  | failed =>
      rw [asked] at idle
      exact Or.inr ⟨False.elim, idle⟩

end Step

end ScalarLM.Queue
