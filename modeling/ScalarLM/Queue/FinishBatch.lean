import Mathlib.Algebra.Ring.Int.Defs
import ScalarLM.Queue.Metrics
import ScalarLM.Queue.StoreSteps

/-! The API server's calls with their metrics, one call after the other, and whether
`finish_work` completes its batch. -/

namespace ScalarLM.Queue

open Transition

structure FinishWorkRequest (R : Type) extends FinishRequest R where
  tokenCount : Option Int
  flopCount : Option Int

/-- The queue on disk, the counters of the running process, and as history the ids that
`get_work` has handed out. -/
structure Server (Store Time : Type) where
  store : Store
  metrics : Metrics Time
  handedOut : List Nat

/-- A call of the API, or a restart of the process. The clock gives the time at which a
loop over prompts or requests reads it. -/
inductive ServerCall (R Time : Type) where
  | generate (model : Option String) (maxTokens : Option Int) (prompts : List String)
      (clock : Nat → Time)
  | embed (model : String) (prompts : List String)
  | getWork (batchSize : Nat)
  | finishWork (requests : List (FinishWorkRequest R)) (clock : Nat → Time)
  | restart

section Calls

variable {Store R Time : Type} [Zero Time] [Add Time] [Sub Time]
  (queue : AckQueue Store (Item R))

def generatePrompts (model : String) (maxTokens : Option Int) (clock : Nat → Time) :
    List String → Server Store Time → Server Store Time
  | [], server => server
  | prompt :: rest, server =>
      generatePrompts model maxTokens (fun index => clock (index + 1)) rest
        { server with
          store := (queue.put (generateItem model maxTokens prompt) server.store).2
          metrics := server.metrics.recordNewRequest (clock 0) }

/-- The loop of `embed` over its prompts, which records nothing. -/
def embedPrompts (model : String) : List String → Server Store Time → Server Store Time
  | [], server => server
  | prompt :: rest, server =>
      embedPrompts model rest
        { server with store := (queue.put (embedItem model prompt) server.store).2 }

def getMore : Nat → Store → List WorkRequest × Store
  | 0, store => ([], store)
  | left + 1, store =>
      match queue.get store with
      | (some (id, item), store) =>
          let more := getMore left store
          (getWorkResponse id item :: more.1, more.2)
      | (none, store) => ([], store)

/-- `get_work`: no wait for a first request helps while no other call runs. -/
def getWork (batchSize : Nat) (store : Store) : List WorkRequest × Store :=
  match queue.get store with
  | (some (id, item), store) =>
      let more := getMore queue (batchSize - 1) store
      (getWorkResponse id item :: more.1, more.2)
  | (none, store) => ([], store)

def finishOne (currentTime : Time) (request : FinishWorkRequest R) (item : Item R)
    (server : Server Store Time) : Bool × Server Store Time :=
  let recorded := server.metrics.recordCompletedRequest request.tokenCount request.flopCount
    currentTime
  (recorded.1, { server with
    store := updateAndAck queue request.requestId (finishItem request.toFinishRequest item)
      server.store
    metrics := recorded.2 })

/-- Whether `finish_work` returns, and the server it leaves behind. -/
def finishWork (clock : Nat → Time) :
    List (FinishWorkRequest R) → Server Store Time → Bool × Server Store Time
  | [], server => (true, server)
  | request :: rest, server =>
      match queue.getId request.requestId server.store with
      | (none, store) => (false, { server with store := store })
      | (some item, store) =>
          let one := finishOne queue (clock 0) request item { server with store := store }
          if one.1 then finishWork (fun index => clock (index + 1)) rest one.2 else one

def serve (server : Server Store Time) : ServerCall R Time → Server Store Time
  | .generate none _ _ _ => server
  | .generate (some model) maxTokens prompts clock =>
      generatePrompts queue model maxTokens clock prompts server
  | .embed model prompts => embedPrompts queue model prompts server
  | .getWork batchSize =>
      let work := getWork queue batchSize server.store
      { server with
        store := work.2
        handedOut := server.handedOut ++ work.1.map WorkRequest.requestId }
  | .finishWork requests clock => (finishWork queue clock requests server).2
  | .restart =>
      { server with store := queue.resumeUnackTasks server.store, metrics := .fresh }

def initialServer : Server Store Time where
  store := queue.empty
  metrics := .fresh
  handedOut := []

end Calls

section Rows

variable {Store R : Type} {queue : AckQueue Store (Item R)}

theorem getMore_hasRow (left : Nat) (store : Store) :
    (∀ id, HasRow queue store id → HasRow queue (getMore queue left store).2 id) ∧
      ∀ id ∈ (getMore queue left store).1.map WorkRequest.requestId,
        HasRow queue (getMore queue left store).2 id := by
  induction left generalizing store with
  | zero => exact ⟨fun _ present => present, List.forall_mem_nil _⟩
  | succ left ih =>
      unfold getMore
      cases found : queue.get store with
      | mk first next =>
          cases first with
          | none =>
              have same := (queue.get_none store (by rw [found])).2
              rw [found] at same
              exact ⟨fun _ present => same ▸ present, List.forall_mem_nil _⟩
          | some entry =>
              have taken : (queue.get store).1 = some (entry.1, entry.2) := by rw [found]
              have after : (queue.get store).2 = next := by rw [found]
              obtain ⟨kept, given⟩ := ih next
              constructor
              · intro id present
                exact kept id (after ▸ HasRow.get taken present)
              · intro id member
                rcases List.mem_cons.mp member with rfl | later
                · exact kept _ (after ▸ hasRow_got taken)
                · exact given id later

variable (queue) in
theorem getWork_hasRow (batchSize : Nat) (store : Store) :
    (∀ id, HasRow queue store id → HasRow queue (getWork queue batchSize store).2 id) ∧
      ∀ id ∈ (getWork queue batchSize store).1.map WorkRequest.requestId,
        HasRow queue (getWork queue batchSize store).2 id :=
  getMore_hasRow (batchSize - 1 + 1) store

end Rows

section Reachable

variable {Store R Time : Type} [Zero Time] [Add Time] [Sub Time]
  {queue : AckQueue Store (Item R)}

variable (queue) in
def HandedOutStored (server : Server Store Time) : Prop :=
  ∀ id ∈ server.handedOut, HasRow queue server.store id

omit [Zero Time] [Add Time] [Sub Time] in
theorem generatePrompts_stored (model : String) (maxTokens : Option Int) (prompts : List String)
    (clock : Nat → Time) (server : Server Store Time) (stored : HandedOutStored queue server) :
    HandedOutStored queue (generatePrompts queue model maxTokens clock prompts server) := by
  induction prompts generalizing clock server with
  | nil => exact stored
  | cons prompt rest ih => exact ih _ _ fun id member => (stored id member).put _

omit [Zero Time] [Add Time] [Sub Time] in
theorem embedPrompts_stored (model : String) (prompts : List String)
    (server : Server Store Time) (stored : HandedOutStored queue server) :
    HandedOutStored queue (embedPrompts queue model prompts server) := by
  induction prompts generalizing server with
  | nil => exact stored
  | cons prompt rest ih => exact ih _ fun id member => (stored id member).put _

omit [Zero Time] in
theorem finishWork_found (request : FinishWorkRequest R) (rest : List (FinishWorkRequest R))
    (item : Item R) (clock : Nat → Time) (server : Server Store Time)
    (found : (queue.getId request.requestId server.store).1 = some item) :
    finishWork queue clock (request :: rest) server =
      if server.metrics.epochTime.isSome then
        finishWork queue (fun index => clock (index + 1)) rest
          (finishOne queue (clock 0) request item { server with
            store := (queue.getId request.requestId server.store).2 }).2
      else finishOne queue (clock 0) request item { server with
        store := (queue.getId request.requestId server.store).2 } := by
  rw [finishWork]
  cases taken : queue.getId request.requestId server.store with
  | mk first store =>
      rw [taken] at found
      obtain rfl : first = some item := found
      dsimp only [finishOne]
      rw [Metrics.recordCompletedRequest_returns]

omit [Zero Time] in
theorem finishWork_missing (request : FinishWorkRequest R) (rest : List (FinishWorkRequest R))
    (clock : Nat → Time) (server : Server Store Time)
    (missing : (queue.getId request.requestId server.store).1 = none) :
    finishWork queue clock (request :: rest) server = (false, server) := by
  have same := (queue.getId_none request.requestId server.store missing).2
  rw [finishWork]
  cases taken : queue.getId request.requestId server.store with
  | mk first store =>
      rw [taken] at missing same
      obtain rfl : first = none := missing
      obtain rfl : store = server.store := same
      rfl

omit [Zero Time] in
theorem finishOne_hasRow (request : FinishWorkRequest R) (item : Item R) (now : Time)
    (server : Server Store Time)
    (found : (queue.getId request.requestId server.store).1 = some item) (id : Nat)
    (present : HasRow queue server.store id) :
    HasRow queue (finishOne queue now request item { server with
      store := (queue.getId request.requestId server.store).2 }).2.store id :=
  (present.edits (queue.getId_some _ _ item found).2 (Row.marked_id _ _)).updateAndAck _ _

omit [Zero Time] in
variable (queue) in
theorem finishWork_keeps (requests : List (FinishWorkRequest R)) (clock : Nat → Time)
    (server : Server Store Time) :
    (finishWork queue clock requests server).2.handedOut = server.handedOut ∧
      ∀ id, HasRow queue server.store id →
        HasRow queue (finishWork queue clock requests server).2.store id := by
  induction requests generalizing clock server with
  | nil => exact ⟨rfl, fun _ present => present⟩
  | cons request rest ih =>
      cases found : (queue.getId request.requestId server.store).1 with
      | none =>
          rw [finishWork_missing request rest clock server found]
          exact ⟨rfl, fun _ present => present⟩
      | some item =>
          rw [finishWork_found request rest item clock server found]
          have kept := finishOne_hasRow request item (clock 0) server found
          split
          · obtain ⟨same, rows⟩ := ih (fun index => clock (index + 1))
              (finishOne queue (clock 0) request item { server with
                store := (queue.getId request.requestId server.store).2 }).2
            exact ⟨same, fun id present => rows id (kept id present)⟩
          · exact ⟨rfl, kept⟩

theorem serve_stored (server : Server Store Time) (call : ServerCall R Time)
    (stored : HandedOutStored queue server) : HandedOutStored queue (serve queue server call) := by
  cases call with
  | generate model maxTokens prompts clock =>
      cases model with
      | none => exact stored
      | some model => exact generatePrompts_stored model maxTokens prompts clock server stored
  | embed model prompts => exact embedPrompts_stored model prompts server stored
  | getWork batchSize =>
      obtain ⟨kept, given⟩ := getWork_hasRow queue batchSize server.store
      intro id member
      rcases List.mem_append.mp member with old | new
      · exact kept id (stored id old)
      · exact given id new
  | finishWork requests clock =>
      obtain ⟨same, kept⟩ := finishWork_keeps queue requests clock server
      intro id member
      rw [serve, same] at member
      exact kept id (stored id member)
  | restart =>
      exact fun id member => (stored id member).edits (queue.resume_edits _) Row.resumed_id

theorem run_stored (calls : List (ServerCall R Time)) :
    HandedOutStored queue (run (serve queue) (initialServer queue) calls) :=
  run_of_invariant _ (HandedOutStored queue) (fun _ _ => True)
    (fun server call stored _ => serve_stored server call stored) _ _ (List.forall_mem_nil _)
    (allSteps_of_forall _ _ (fun _ _ => trivial) _ _)

end Reachable

section Completion

variable {Store R Time : Type} [Zero Time] [Add Time] [Sub Time]
  (queue : AckQueue Store (Item R))

/-- The row of the request is acked, with the response or the error that came with it. -/
def Finished (request : FinishWorkRequest R) (store : Store) : Prop :=
  ∃ row ∈ queue.queue store, row.id = request.requestId ∧ row.status = .acked ∧
    (∀ response, request.response = some response → row.data.response = some response) ∧
    (∀ error, request.error = some error → row.data.error = some error)

/-- The call returned and its whole batch is finished. -/
structure Completes (requests : List (FinishWorkRequest R)) (outcome : Bool × Server Store Time) :
    Prop where
  returns : outcome.1 = true
  finished : ∀ request ∈ requests, Finished queue request outcome.2.store

variable {queue}

omit [Zero Time] in
theorem finishWork_frame (requests : List (FinishWorkRequest R)) (clock : Nat → Time)
    (server : Server Store Time) (row : Row (Item R)) (member : row ∈ queue.queue server.store)
    (apart : ∀ request ∈ requests, row.id ≠ request.requestId) :
    row ∈ queue.queue (finishWork queue clock requests server).2.store := by
  induction requests generalizing clock server with
  | nil => exact member
  | cons request rest ih =>
      have here := apart request List.mem_cons_self
      have later : ∀ other ∈ rest, row.id ≠ other.requestId :=
        fun other present => apart other (List.mem_cons_of_mem _ present)
      cases found : (queue.getId request.requestId server.store).1 with
      | none =>
          rw [finishWork_missing request rest clock server found]
          exact member
      | some item =>
          have got : row ∈ queue.queue (queue.getId request.requestId server.store).2 :=
            ((queue.getId_some _ _ item found).2.1 row).mpr
              ⟨row, member, Row.marked_other _ _ row here⟩
          have kept : row ∈ queue.queue (finishOne queue (clock 0) request item { server with
              store := (queue.getId request.requestId server.store).2 }).2.store := by
            refine (mem_updateAndAck_iff _ _ _ row).mpr ⟨row, got, ?_⟩
            rw [Row.updated, if_neg here, Row.marked_other _ _ row here]
          rw [finishWork_found request rest item clock server found]
          split
          · exact ih _ _ kept later
          · exact kept

omit [Zero Time] in
theorem finishOne_finished (request : FinishWorkRequest R) (item : Item R) (now : Time)
    (server : Server Store Time)
    (found : (queue.getId request.requestId server.store).1 = some item) :
    Finished queue request (finishOne queue now request item { server with
      store := (queue.getId request.requestId server.store).2 }).2.store := by
  obtain ⟨⟨row, member, hit, _⟩, edits⟩ := queue.getId_some _ _ item found
  let taken := row.marked request.requestId .unack
  have same : taken.id = request.requestId := (Row.marked_id _ _ row).trans hit
  have got : taken ∈ queue.queue (queue.getId request.requestId server.store).2 :=
    (edits.1 _).mpr ⟨row, member, rfl⟩
  refine ⟨_, (mem_updateAndAck_iff _ _ _ _).mpr ⟨taken, got, rfl⟩, ?_, ?_, ?_, ?_⟩
  · rw [Row.marked_id, Row.updated_id, same]
  · exact Row.marked_same _ _ _ ((Row.updated_id _ _ taken).trans same)
  · intro response supplied
    rw [Row.marked_data, Row.updated, if_pos same]
    simp [finishItem, supplied]
  · intro error supplied
    rw [Row.marked_data, Row.updated, if_pos same]
    simp [finishItem, supplied]

omit [Zero Time] in
/-- With a time to count from, the loop gets to the end of the batch. -/
theorem finishWork_completes (requests : List (FinishWorkRequest R)) (clock : Nat → Time)
    (server : Server Store Time) (counting : server.metrics.epochTime.isSome)
    (distinct : (requests.map fun request => request.requestId).Nodup)
    (stored : ∀ request ∈ requests, HasRow queue server.store request.requestId) :
    Completes queue requests (finishWork queue clock requests server) := by
  induction requests generalizing clock server with
  | nil => exact ⟨rfl, List.forall_mem_nil _⟩
  | cons request rest ih =>
      obtain ⟨unseen, others⟩ := List.nodup_cons.mp distinct
      obtain ⟨item, found⟩ := (stored request List.mem_cons_self).getId
      rw [finishWork_found request rest item clock server found, if_pos counting]
      have kept := finishOne_hasRow request item (clock 0) server found
      have rest_ok := ih (fun index => clock (index + 1))
        (finishOne queue (clock 0) request item { server with
          store := (queue.getId request.requestId server.store).2 }).2
        ((Metrics.recordCompletedRequest_epochTime _ _ _ _).trans counting) others
        fun other member => kept _ (stored other (List.mem_cons_of_mem _ member))
      refine ⟨rest_ok.returns, ?_⟩
      intro other member
      rcases List.mem_cons.mp member with rfl | later
      · obtain ⟨row, present, hit, done⟩ := finishOne_finished other item (clock 0) server found
        refine ⟨row, finishWork_frame rest _ _ row present ?_, hit, done⟩
        intro another among same
        exact unseen (List.mem_map.mpr ⟨another, among, same.symm.trans hit⟩)
      · exact rest_ok.finished other later

omit [Zero Time] in
/-- Without one, it raises at the first request. -/
theorem finishWork_raises (request : FinishWorkRequest R) (rest : List (FinishWorkRequest R))
    (clock : Nat → Time) (server : Server Store Time) (idle : server.metrics.epochTime = none) :
    (finishWork queue clock (request :: rest) server).1 = false := by
  cases found : (queue.getId request.requestId server.store).1 with
  | none => rw [finishWork_missing request rest clock server found]
  | some item =>
      rw [finishWork_found request rest item clock server found, if_neg (by simp [idle])]
      change (server.metrics.recordCompletedRequest _ _ _).1 = false
      rw [Metrics.recordCompletedRequest_returns, idle]
      rfl

variable (queue) in
/-- After any calls, `finish_work` completes a batch of ids that were handed out exactly
if the running process has a time to count from, or has nothing to do. -/
theorem finish_work_completes_iff (calls : List (ServerCall R Time))
    (requests : List (FinishWorkRequest R)) (clock : Nat → Time)
    (distinct : (requests.map fun request => request.requestId).Nodup)
    (handed : ∀ request ∈ requests,
      request.requestId ∈ (run (serve queue) (initialServer queue) calls).handedOut) :
    Completes queue requests
        (finishWork queue clock requests (run (serve queue) (initialServer queue) calls)) ↔
      requests = [] ∨
        (run (serve queue) (initialServer queue) calls).metrics.epochTime ≠ none := by
  constructor
  · intro completes
    cases requests with
    | nil => exact Or.inl rfl
    | cons request rest =>
        refine Or.inr fun idle => ?_
        have raised : (finishWork queue clock (request :: rest) _).1 = false :=
          finishWork_raises request rest clock _ idle
        rw [completes.returns] at raised
        cases raised
  · intro either
    rcases either with rfl | counting
    · exact ⟨rfl, List.forall_mem_nil _⟩
    · exact finishWork_completes requests clock _ (Option.isSome_iff_ne_none.mpr counting) distinct
        fun request member => run_stored calls _ (handed request member)

end Completion

def mixedCalls : List (ServerCall String Int) := [
  .generate (some "model") none ["first"] (fun _ => 5), .embed "model" ["second", "third"],
  .getWork 3]

def mixedBatch : List (FinishWorkRequest String) := [
  ⟨⟨1, some "one", none⟩, some 10, some 20⟩, ⟨⟨2, none, some "error"⟩, none, none⟩,
  ⟨⟨3, some "three", none⟩, none, none⟩]

theorem mixed_batch_completes :
    Completes (tableQueue (Item String)) mixedBatch (finishWork (tableQueue (Item String))
      (fun index => 7 + (index : Int)) mixedBatch
      (run (serve (tableQueue (Item String))) (initialServer (tableQueue (Item String)))
        mixedCalls)) :=
  (finish_work_completes_iff (tableQueue (Item String)) mixedCalls mixedBatch _ (by decide)
    (by decide)).mpr (Or.inr (by decide))

/-- Only `embed` was called: the first row is acked, then the batch ends with an error. -/
theorem embed_batch_incomplete :
    ¬ ∀ (calls : List (ServerCall String Int)) (requests : List (FinishWorkRequest String))
      (clock : Nat → Int), (requests.map fun request => request.requestId).Nodup →
      (∀ request ∈ requests, request.requestId ∈
        (run (serve (tableQueue (Item String))) (initialServer (tableQueue (Item String)))
          calls).handedOut) →
      Completes (tableQueue (Item String)) requests (finishWork (tableQueue (Item String)) clock
        requests (run (serve (tableQueue (Item String)))
          (initialServer (tableQueue (Item String))) calls)) := by
  intro claimed
  have completes := claimed [.embed "model" ["first", "second"], .getWork 2]
    [⟨⟨1, some "one", none⟩, none, none⟩, ⟨⟨2, some "two", none⟩, none, none⟩] (fun _ => 7)
    (by decide) (by decide)
  cases completes.returns

end ScalarLM.Queue
