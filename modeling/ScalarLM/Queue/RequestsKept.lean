import ScalarLM.Lib.Transition
import ScalarLM.Queue.Cluster

/-! Whether every accepted request that is not acked is ready or held by a running
worker step. -/

namespace ScalarLM.Queue

open Transition

section Rows

variable {Store Item : Type} (queue : AckQueue Store Item)

def ReadyIn (store : Store) (id : Nat) : Prop :=
  ∃ row ∈ queue.queue store, row.id = id ∧ row.status = .ready

def StoredIn (store : Store) (id : Nat) : Prop :=
  ∃ row ∈ queue.queue store, row.id = id ∧ row.status ≠ .acked

variable {queue} {before after : Store} {id other : Nat}

theorem readyIn_put (item : Item) (store : Store) (ready : ReadyIn queue store id) :
    ReadyIn queue (queue.put item store).2 id := by
  obtain ⟨row, member, same⟩ := ready
  exact ⟨row, (queue.put_queue item store row).mpr (Or.inl member), same⟩

theorem storedIn_put (item : Item) (store : Store) (stored : StoredIn queue store id) :
    StoredIn queue (queue.put item store).2 id := by
  obtain ⟨row, member, same⟩ := stored
  exact ⟨row, (queue.put_queue item store row).mpr (Or.inl member), same⟩

theorem readyIn_put_new (item : Item) (store : Store) :
    ReadyIn queue (queue.put item store).2 (queue.put item store).1 :=
  ⟨_, (queue.put_queue item store _).mpr (Or.inr rfl), rfl, rfl⟩

theorem storedIn_of_readyIn (store : Store) (ready : ReadyIn queue store id) :
    StoredIn queue store id := by
  obtain ⟨row, member, same, status⟩ := ready
  exact ⟨row, member, same, by rw [status]; simp⟩

theorem readyIn_dequeued
    (edits : Edits queue.queue queue.lastId (Row.marked id .unack) before after) :
    ReadyIn queue after other ↔ other ≠ id ∧ ReadyIn queue before other := by
  constructor
  · intro given
    rcases given with ⟨row, member, rfl, status⟩
    obtain ⟨old, present, rfl⟩ := (edits.1 row).mp member
    have apart : old.id ≠ id := by
      intro hit
      rw [Row.marked_same id .unack old hit] at status
      cases status
    rw [Row.marked_other id .unack old apart] at status ⊢
    exact ⟨apart, old, present, rfl, status⟩
  · intro given
    rcases given with ⟨apart, row, member, rfl, status⟩
    exact ⟨row, (edits.1 row).mpr ⟨row, member, Row.marked_other id .unack row apart⟩, rfl, status⟩

theorem storedIn_dequeued
    (edits : Edits queue.queue queue.lastId (Row.marked id .unack) before after)
    (stored : StoredIn queue before other) : StoredIn queue after other := by
  obtain ⟨row, member, rfl, status⟩ := stored
  refine ⟨row.marked id .unack, (edits.1 _).mpr ⟨row, member, rfl⟩, Row.marked_id _ _ _, ?_⟩
  unfold Row.marked
  split
  · simp
  · exact status

theorem storedIn_clear (store : Store) (stored : StoredIn queue store id) :
    StoredIn queue (queue.clearAckedData store) id := by
  obtain ⟨row, member, same, status⟩ := stored
  exact ⟨row, queue.clear_kept store row member status, same, status⟩

theorem readyIn_clear (store : Store) (ready : ReadyIn queue store id) :
    ReadyIn queue (queue.clearAckedData store) id := by
  obtain ⟨row, member, same, status⟩ := ready
  exact ⟨row, queue.clear_kept store row member (by rw [status]; simp), same, status⟩

theorem readyIn_resume (store : Store) (stored : StoredIn queue store id) :
    ReadyIn queue (queue.resumeUnackTasks store) id := by
  obtain ⟨row, member, same, status⟩ := stored
  refine ⟨row.resumed, ((queue.resume_edits store).1 _).mpr ⟨row, member, rfl⟩, ?_, ?_⟩
  · rw [Row.resumed_id, same]
  · unfold Row.resumed
    cases kind : row.status with
    | ready => simpa using kind
    | unack => simp
    | acked => exact absurd kind status

end Rows

section Finish

variable {Store R : Type} {queue : AckQueue Store (Item R)} {id other : Nat}

theorem mem_updateAndAck (item : Item R) (store : Store) (row : Row (Item R))
    (member : row ∈ queue.queue store) (apart : row.id ≠ id) :
    row ∈ queue.queue (updateAndAck queue id item store) := by
  refine ((queue.ack_edits id _).1 row).mpr ⟨row, ?_, Row.marked_other id .acked row apart⟩
  exact ((queue.update_edits id item store).1 row).mpr ⟨row, member, if_neg apart⟩

theorem readyIn_updateAndAck (item : Item R) (store : Store) (apart : other ≠ id)
    (ready : ReadyIn queue store other) :
    ReadyIn queue (updateAndAck queue id item store) other := by
  obtain ⟨row, member, rfl, status⟩ := ready
  exact ⟨row, mem_updateAndAck item store row member apart, rfl, status⟩

theorem storedIn_updateAndAck (item : Item R) (store : Store) (apart : other ≠ id)
    (stored : StoredIn queue store other) :
    StoredIn queue (updateAndAck queue id item store) other := by
  obtain ⟨row, member, rfl, status⟩ := stored
  exact ⟨row, mem_updateAndAck item store row member apart, rfl, status⟩

end Finish

section Held

variable {Store R : Type} (state : Cluster Store R)

def requestIds (requests : List WorkRequest) : List Nat := requests.map WorkRequest.requestId

/-- The rows that a worker's running step has got, or will get with the reply of its
`get_work`. -/
def Worker.held (getWorks : Nat → GetWork) : Worker → List Nat
  | .idle => []
  | .awaitWork handler => requestIds (getWorks handler).requests
  | .generating requests => requestIds requests
  | .awaitFinish requests _ => requestIds requests

def heldIds (worker : Nat) : List Nat := (state.workers worker).held state.getWorks

def Held (id : Nat) : Prop := ∃ worker, id ∈ heldIds state worker

/-- Accepted and not yet acked. -/
def Pending (id : Nat) : Prop := id ∈ state.accepted.map Accepted.id ∧ id ∉ state.acked

variable (queue : AckQueue Store (Item R))

/-- No accepted request is lost. -/
def NoneLost : Prop :=
  ∀ id, Pending state id → ReadyIn queue state.store id ∨ Held state id

/-- A `get_work` dequeues for a step that is still running, a `finish_work` fetches
the row of such a step, and a step that raises holds no row that is not yet acked;
otherwise another running step must hold the row. -/
def Safe : Event R → Prop
  | .dequeue handler => (state.getWorks handler).Asks → ∀ id item,
      (queue.get state.store).1 = some (id, item) → Pending state id →
        (∃ worker, state.workers worker = .awaitWork handler) ∨ Held state id
  | .finishGet handler => ∀ request rest, state.finishWorks handler = .next (request :: rest) →
      Pending state request.requestId → Held state request.requestId
  | .stepRaises worker => ∀ id ∈ heldIds state worker, Pending state id →
      ReadyIn queue state.store id ∨ ∃ other, other ≠ worker ∧ id ∈ heldIds state other
  | _ => True

/-- A pending request has its row, and a step that awaits a `finish_work` finds all its
rows acked or still to be acked by it. -/
structure Consistent : Prop where
  stored : ∀ id, Pending state id → StoredIn queue state.store id
  finishing : ∀ worker requests handler, state.workers worker = .awaitFinish requests handler →
    state.finishWorks handler ≠ .unstarted ∧
      (state.finishWorks handler ≠ .failed → ∀ id ∈ requestIds requests,
        id ∈ state.acked ∨ id ∈ (state.finishWorks handler).remaining.map FinishRequest.requestId)

end Held

section Steps

variable {Store R : Type} {queue : AckQueue Store (Item R)} {state : Cluster Store R}

theorem heldIds_setWorker (worker other : Nat) (phase : Worker) :
    heldIds (state.setWorker worker phase) other =
      if other = worker then phase.held state.getWorks else heldIds state other := by
  unfold heldIds Cluster.setWorker
  by_cases same : other = worker
  · subst same
    simp
  · simp [same]

theorem held_setWorker (worker : Nat) (phase : Worker)
    (same : phase.held state.getWorks = heldIds state worker) (id : Nat) :
    Held (state.setWorker worker phase) id ↔ Held state id := by
  refine exists_congr fun other => ?_
  rw [heldIds_setWorker]
  by_cases hit : other = worker
  · rw [if_pos hit, same, hit]
  · rw [if_neg hit]

theorem held_getWork (handler : Nat) (phase : GetWork) (more : List WorkRequest)
    (grown : phase.requests = (state.getWorks handler).requests ++ more) (store : Store)
    (id : Nat) :
    Held { state with
        store := store
        getWorks := Function.update state.getWorks handler phase } id ↔
      Held state id ∨
        id ∈ requestIds more ∧ ∃ worker, state.workers worker = .awaitWork handler := by
  have one : ∀ worker, id ∈ (state.workers worker).held
      (Function.update state.getWorks handler phase) ↔
        id ∈ heldIds state worker ∨
          id ∈ requestIds more ∧ state.workers worker = .awaitWork handler := by
    intro worker
    unfold heldIds
    cases kind : state.workers worker with
    | awaitWork number =>
        simp only [Worker.held, Worker.awaitWork.injEq]
        by_cases hit : number = handler
        · subst hit
          rw [Function.update_self, grown, requestIds, List.map_append, List.mem_append]
          simp only [and_true]
          rfl
        · rw [Function.update_of_ne hit]
          simp [hit]
    | idle => simp [Worker.held]
    | generating requests => simp [Worker.held]
    | awaitFinish requests number => simp [Worker.held]
  constructor
  · intro given
    rcases given with ⟨worker, member⟩
    rcases (one worker).mp member with old | ⟨new, awaits⟩
    · exact Or.inl ⟨worker, old⟩
    · exact Or.inr ⟨new, worker, awaits⟩
  · intro either
    rcases either with ⟨worker, old⟩ | ⟨new, worker, awaits⟩
    · exact ⟨worker, (one worker).mpr (Or.inl old)⟩
    · exact ⟨worker, (one worker).mpr (Or.inr ⟨new, awaits⟩)⟩

/-- A `finish_work` goes on, or fails; it does not begin anew and drops no row that it
has not acked. -/
def Progress (before after : Cluster Store R) (handler : Nat) : Prop :=
  before.finishWorks handler ≠ .unstarted →
    after.finishWorks handler ≠ .unstarted ∧
      (after.finishWorks handler ≠ .failed → before.finishWorks handler ≠ .failed ∧
        ∀ id ∈ (before.finishWorks handler).remaining.map FinishRequest.requestId,
          id ∈ after.acked ∨
            id ∈ (after.finishWorks handler).remaining.map FinishRequest.requestId)

theorem Progress.of_same {after : Cluster Store R} (handler : Nat)
    (same : after.finishWorks handler = state.finishWorks handler) :
    Progress state after handler := by
  intro started
  rw [same]
  exact ⟨started, fun alive => ⟨alive, fun _ member => Or.inr member⟩⟩

theorem Consistent.of_progress (inv : Consistent state queue) (after : Cluster Store R)
    (stored : ∀ id, Pending after id → StoredIn queue after.store id)
    (workers : ∀ worker requests handler, after.workers worker = .awaitFinish requests handler →
      state.workers worker = .awaitFinish requests handler)
    (acked : ∀ id ∈ state.acked, id ∈ after.acked)
    (progress : ∀ handler, Progress state after handler) : Consistent after queue where
  stored := stored
  finishing := by
    intro worker requests handler awaits
    obtain ⟨started, done⟩ := inv.finishing worker requests handler (workers _ _ _ awaits)
    obtain ⟨started', goesOn⟩ := progress handler started
    refine ⟨started', fun alive id member => ?_⟩
    obtain ⟨alive', kept⟩ := goesOn alive
    rcases done alive' id member with ended | left
    · exact Or.inl (acked id ended)
    · exact kept id left

theorem setWorker_awaits (worker : Nat) (phase : Worker)
    (apart : ∀ requests handler, phase ≠ .awaitFinish requests handler) (other : Nat)
    (requests : List WorkRequest) (handler : Nat)
    (awaits : (state.setWorker worker phase).workers other = .awaitFinish requests handler) :
    state.workers other = .awaitFinish requests handler := by
  change Function.update state.workers worker phase other = _ at awaits
  by_cases hit : other = worker
  · subst hit
    rw [Function.update_self] at awaits
    exact absurd awaits (apart requests handler)
  · rwa [Function.update_of_ne hit] at awaits

theorem progress_update (handler : Nat) (phase : FinishWork R) (after : Cluster Store R)
    (outcome : after.finishWorks = Function.update state.finishWorks handler phase)
    (goesOn : state.finishWorks handler ≠ .unstarted → phase ≠ .unstarted ∧
      (phase ≠ .failed → state.finishWorks handler ≠ .failed ∧
        ∀ id ∈ (state.finishWorks handler).remaining.map FinishRequest.requestId,
          id ∈ after.acked ∨ id ∈ phase.remaining.map FinishRequest.requestId)) (number : Nat) :
    Progress state after number := by
  by_cases hit : number = handler
  · subst hit
    unfold Progress
    rw [outcome, Function.update_self]
    exact goesOn
  · exact Progress.of_same number (by rw [outcome, Function.update_of_ne hit])

theorem completions_ids (requests : List WorkRequest) (results : List (Option R × Option String))
    (full : results.length = requests.length) :
    (completions requests results).map FinishRequest.requestId = requestIds requests := by
  induction requests generalizing results with
  | nil => rfl
  | cons request rest ih =>
      cases results with
      | nil => cases full
      | cons result others =>
          have tail := ih others (Nat.succ.inj full)
          simp only [completions, List.zipWith_cons_cons, List.map_cons, requestIds] at tail ⊢
          rw [tail]

variable (queue state)

structure StepKeeps (event : Event R) : Prop where
  consistent : Consistent (step queue state event) queue
  exactly : NoneLost (step queue state event) queue ↔ Safe state queue event

variable {queue state} (inv : Consistent state queue) (none : NoneLost state queue)

include inv none

theorem onlyCalls_keeps (event : Event R) (only : event.OnlyCalls) :
    StepKeeps queue state event := by
  obtain ⟨calls, same⟩ := step_onlyCalls queue state event only
  have safe : Safe state queue event := by
    cases event with
    | dequeue | finishGet | stepRaises => exact only.elim
    | _ => trivial
  constructor
  · rw [same]
    exact ⟨inv.stored, inv.finishing⟩
  · rw [same]
    exact iff_of_true none safe

theorem enqueue_keeps (call : Nat) : StepKeeps queue state (.enqueue call) := by
  have split : (∃ calls, enqueue queue state call = { state with calls := calls }) ∨
      ∃ item entry calls, enqueue queue state call = { state with
          store := (queue.put item state.store).2
          accepted := state.accepted ++ [entry]
          calls := calls } ∧ entry.id = (queue.put item state.store).1 := by
    simp only [enqueue]
    split
    · exact Or.inl ⟨_, rfl⟩
    · exact Or.inr ⟨_, _, _, rfl, rfl⟩
    · exact Or.inl ⟨_, rfl⟩
  rcases split with ⟨calls, same⟩ | ⟨item, entry, calls, same, fresh⟩
  · constructor
    · rw [step, same]
      exact ⟨inv.stored, inv.finishing⟩
    · rw [step, same]
      exact iff_of_true none trivial
  · have known : ∀ id, id ∈ (state.accepted ++ [entry]).map Accepted.id → id ∉ state.acked →
        Pending state id ∨ id = (queue.put item state.store).1 := by
      intro id member unacked
      rw [List.map_append, List.mem_append] at member
      rcases member with old | new
      · exact Or.inl ⟨old, unacked⟩
      · exact Or.inr (by rw [List.mem_singleton.mp new, fresh])
    constructor
    · rw [step, same]
      refine ⟨?_, inv.finishing⟩
      intro id given
      rcases given with ⟨member, unacked⟩
      rcases known id member unacked with old | rfl
      · exact storedIn_put item state.store (inv.stored id old)
      · exact storedIn_of_readyIn _ (readyIn_put_new item state.store)
    · rw [step, same]
      refine iff_of_true ?_ trivial
      intro id given
      rcases given with ⟨member, unacked⟩
      rcases known id member unacked with old | rfl
      · exact (none id old).imp_left (readyIn_put item state.store)
      · exact Or.inl (readyIn_put_new item state.store)

omit none in
theorem held_keeps (event : Event R) (after : Cluster Store R)
    (outcome : step queue state event = after) (safe : Safe state queue event)
    (none : NoneLost state queue)
    (store : after.store = state.store) (accepted : after.accepted = state.accepted)
    (acked : after.acked = state.acked) (finishWorks : after.finishWorks = state.finishWorks)
    (workers : ∀ worker requests handler, after.workers worker = .awaitFinish requests handler →
      state.workers worker = .awaitFinish requests handler)
    (held : ∀ id, Held state id → Held after id) : StepKeeps queue state event := by
  have pending : ∀ id, Pending after id ↔ Pending state id := by
    intro id
    rw [Pending, Pending, accepted, acked]
  constructor
  · rw [outcome]
    refine inv.of_progress after ?_ workers (fun id member => by rw [acked]; exact member)
      fun handler => Progress.of_same handler (by rw [finishWorks])
    intro id waits
    rw [store]
    exact inv.stored id ((pending id).mp waits)
  · rw [outcome]
    refine iff_of_true ?_ safe
    intro id waits
    rw [store]
    exact (none id ((pending id).mp waits)).imp_right (held id)

theorem unchanged_keeps (event : Event R) (outcome : step queue state event = state)
    (safe : Safe state queue event) : StepKeeps queue state event :=
  held_keeps inv event state outcome safe none rfl rfl rfl rfl (fun _ _ _ awaits => awaits)
    fun _ held => held

theorem startStep_keeps (worker handler batchSize : Nat) :
    StepKeeps queue state (.startStep worker handler batchSize) := by
  cases phase : state.workers worker with
  | idle =>
      cases asked : state.getWorks handler with
      | unstarted =>
          have outcome : step queue state (.startStep worker handler batchSize) =
              Cluster.setWorker { state with
                  store := state.store
                  getWorks := Function.update state.getWorks handler (.waiting batchSize) }
                worker (.awaitWork handler) := by
            simp only [step, startStep, phase, asked]
            rfl
          refine held_keeps inv _ _ outcome trivial none rfl rfl rfl rfl
            (setWorker_awaits worker _ fun _ _ => by simp) ?_
          intro id held
          rw [held_setWorker]
          · rw [held_getWork handler (.waiting batchSize) [] (by rw [asked]; rfl)]
            exact Or.inl held
          · simp [Worker.held, heldIds, phase, GetWork.requests, requestIds]
      | _ => exact unchanged_keeps inv none _ (by simp only [step, startStep, phase, asked]) trivial
  | _ => exact unchanged_keeps inv none _ (by simp only [step, startStep, phase]) trivial

theorem getWork_keeps (event : Event R) (handler : Nat) (phase : GetWork)
    (outcome : step queue state event =
      { state with getWorks := Function.update state.getWorks handler phase })
    (same : phase.requests = (state.getWorks handler).requests) (safe : Safe state queue event) :
    StepKeeps queue state event := by
  refine held_keeps inv event _ outcome safe none rfl rfl rfl rfl (fun _ _ _ awaits => awaits) ?_
  intro id held
  exact (held_getWork handler phase [] (by rw [same, List.append_nil]) state.store id).mpr
    (Or.inl held)

theorem dequeue_keeps (handler : Nat) : StepKeeps queue state (.dequeue handler) := by
  rcases dequeue_cases queue state handler with
    ⟨row, item, phase, asks, found, outcome, grown⟩ | ⟨empty, phase, outcome, same⟩
  · have edits := (queue.get_some state.store row item found).2.2
    have held := held_getWork handler phase _ grown (queue.get state.store).2
    have single : ∀ id, id ∈ requestIds [getWorkResponse row item] ↔ id = row := by
      intro id
      simp [requestIds, getWorkResponse]
    constructor
    · rw [step, outcome]
      refine inv.of_progress _ ?_ (fun _ _ _ awaits => awaits) (fun _ member => member)
        fun handler => Progress.of_same handler rfl
      intro id waits
      exact storedIn_dequeued edits (inv.stored id waits)
    · rw [step, outcome]
      constructor
      · intro after _ id other got waits
        rw [found] at got
        obtain ⟨rfl, rfl⟩ := Prod.mk.inj (Option.some.inj got)
        rcases after row waits with ready | now
        · exact absurd rfl ((readyIn_dequeued edits).mp ready).1
        · rcases (held row).mp now with before | ⟨_, awaited⟩
          · exact Or.inr before
          · exact Or.inl awaited
      · intro safe id waits
        by_cases hit : id = row
        · subst hit
          right
          apply (held id).mpr
          rcases safe asks id item found waits with awaited | before
          · exact Or.inr ⟨(single id).mpr rfl, awaited⟩
          · exact Or.inl before
        · rcases none id waits with ready | before
          · exact Or.inl ((readyIn_dequeued edits).mpr ⟨hit, ready⟩)
          · exact Or.inr ((held id).mpr (Or.inl before))
  · refine getWork_keeps inv none _ handler phase outcome same ?_
    intro asks id item found
    rw [empty asks] at found
    cases found

theorem getWorkStops_keeps (handler : Nat) : StepKeeps queue state (.getWorkStops handler) := by
  cases asked : state.getWorks handler with
  | waiting batchSize =>
      exact getWork_keeps inv none _ handler (.replied [])
        (by simp only [step, getWorkStops, asked]) (by rw [asked]; rfl) trivial
  | filling left requests =>
      exact getWork_keeps inv none _ handler (.replied requests)
        (by simp only [step, getWorkStops, asked]) (by rw [asked]; rfl) trivial
  | _ => exact unchanged_keeps inv none _ (by simp only [step, getWorkStops, asked]) trivial

theorem receiveWork_keeps (worker : Nat) : StepKeeps queue state (.receiveWork worker) := by
  cases phase : state.workers worker with
  | awaitWork handler =>
      cases asked : state.getWorks handler with
      | replied requests =>
          have held : heldIds state worker = requestIds requests := by
            rw [heldIds, phase, Worker.held, asked]
            rfl
          cases requests with
          | nil =>
              exact held_keeps inv _ (state.setWorker worker .idle)
                (by simp only [step, receiveWork, phase, asked]) trivial none rfl rfl rfl rfl
                (setWorker_awaits worker _ fun _ _ => by simp)
                fun id => (held_setWorker worker .idle held.symm id).mpr
          | cons request rest =>
              exact held_keeps inv _ (state.setWorker worker (.generating (request :: rest)))
                (by simp only [step, receiveWork, phase, asked]) trivial none rfl rfl rfl rfl
                (setWorker_awaits worker _ fun _ _ => by simp)
                fun id => (held_setWorker worker (.generating (request :: rest)) held.symm id).mpr
      | _ =>
          exact unchanged_keeps inv none _ (by simp only [step, receiveWork, phase, asked]) trivial
  | _ => exact unchanged_keeps inv none _ (by simp only [step, receiveWork, phase]) trivial

theorem postResults_keeps (worker handler : Nat) (results : List (Option R × Option String)) :
    StepKeeps queue state (.postResults worker handler results) := by
  cases phase : state.workers worker with
  | generating requests =>
      cases fresh : state.finishWorks handler with
      | unstarted =>
          by_cases full : results.length = requests.length
          · let after : Cluster Store R := { state with
              workers := Function.update state.workers worker (.awaitFinish requests handler)
              finishWorks := Function.update state.finishWorks handler
                (.next (completions requests results))
              posted := state.posted ++ completions requests results }
            have outcome : step queue state (.postResults worker handler results) = after := by
              simp only [step, postResults, phase, fresh, if_pos full]
              rfl
            have held : ∀ id, Held after id ↔ Held state id := fun id =>
              held_setWorker worker (.awaitFinish requests handler)
                (by rw [heldIds, phase]; rfl) id
            constructor
            · rw [outcome]
              refine ⟨inv.stored, ?_⟩
              intro other others number awaits
              have started := progress_update handler (.next (completions requests results)) after
                rfl (fun begun => absurd fresh begun) number
              by_cases hit : other = worker
              · subst hit
                obtain ⟨rfl, rfl⟩ : requests = others ∧ handler = number := by
                  simpa [after] using awaits
                have now : after.finishWorks handler = .next (completions requests results) :=
                  Function.update_self _ _ _
                rw [now, FinishWork.remaining, completions_ids requests results full]
                exact ⟨by simp, fun _ id member => Or.inr member⟩
              · have before : state.workers other = .awaitFinish others number := by
                  simpa [after, hit] using awaits
                obtain ⟨begun, done⟩ := inv.finishing other others number before
                obtain ⟨begun', goesOn⟩ := started begun
                refine ⟨begun', fun alive id member => ?_⟩
                obtain ⟨alive', kept⟩ := goesOn alive
                rcases done alive' id member with ended | left
                · exact Or.inl ended
                · exact kept id left
            · rw [outcome]
              exact iff_of_true (fun id waits => (none id waits).imp_right (held id).mpr) trivial
          · exact unchanged_keeps inv none _
              (by simp only [step, postResults, phase, fresh, if_neg full]) trivial
      | _ =>
          exact unchanged_keeps inv none _ (by simp only [step, postResults, phase, fresh]) trivial
  | _ => exact unchanged_keeps inv none _ (by simp only [step, postResults, phase]) trivial

omit inv in
/-- When a worker's step ends, the rows it held must be ready, acked or held by others. -/
theorem noneLost_release (worker : Nat) :
    NoneLost (state.setWorker worker .idle) queue ↔
      ∀ id ∈ heldIds state worker, Pending state id →
        ReadyIn queue state.store id ∨ ∃ other, other ≠ worker ∧ id ∈ heldIds state other := by
  have held : ∀ id, Held (state.setWorker worker .idle) id ↔
      ∃ other, other ≠ worker ∧ id ∈ heldIds state other := by
    intro id
    refine exists_congr fun other => ?_
    rw [heldIds_setWorker]
    by_cases hit : other = worker
    · simp [hit, Worker.held]
    · simp [hit]
  constructor
  · intro after id _ waits
    exact (after id waits).imp_right (held id).mp
  · intro covered id waits
    rcases none id waits with ready | ⟨other, member⟩
    · exact Or.inl ready
    · by_cases hit : other = worker
      · subst hit
        exact (covered id member waits).imp_right (held id).mpr
      · exact Or.inr ((held id).mpr ⟨other, hit, member⟩)

omit none in
theorem consistent_release (worker : Nat) : Consistent (state.setWorker worker .idle) queue :=
  inv.of_progress _ inv.stored (setWorker_awaits worker .idle fun _ _ => by simp)
    (fun _ member => member) fun handler => Progress.of_same handler rfl

theorem stepRaises_keeps (worker : Nat) : StepKeeps queue state (.stepRaises worker) :=
  ⟨consistent_release inv worker, noneLost_release none worker⟩

theorem finishStep_keeps (worker : Nat) : StepKeeps queue state (.finishStep worker) := by
  cases phase : state.workers worker with
  | awaitFinish requests handler =>
      by_cases answered : state.finishWorks handler = .next []
      · have outcome : step queue state (.finishStep worker) = state.setWorker worker .idle := by
          simp only [step, finishStep, phase, answered]
        constructor
        · rw [outcome]
          exact consistent_release inv worker
        · rw [outcome]
          refine iff_of_true ((noneLost_release none worker).mpr ?_) trivial
          intro id member waits
          rw [heldIds, phase] at member
          have done :=
            (inv.finishing worker requests handler phase).2 (by rw [answered]; simp) id member
          rw [answered] at done
          exact absurd (done.resolve_right List.not_mem_nil) waits.2
      · refine unchanged_keeps inv none _ ?_ trivial
        simp only [step, finishStep, phase]
  | _ => exact unchanged_keeps inv none _ (by simp only [step, finishStep, phase]) trivial

theorem setFinish_keeps (event : Event R) (handler : Nat) (phase : FinishWork R)
    (posted : List (FinishRequest R))
    (outcome : step queue state event = { state.setFinish handler phase with posted := posted })
    (goesOn : state.finishWorks handler ≠ .unstarted → phase = .failed)
    (safe : Safe state queue event) : StepKeeps queue state event := by
  constructor
  · rw [outcome]
    refine inv.of_progress _ inv.stored (fun _ _ _ awaits => awaits) (fun _ member => member)
      (progress_update handler phase _ rfl fun begun => ?_)
    rw [goesOn begun]
    exact ⟨by simp, fun alive => absurd rfl alive⟩
  · rw [outcome]
    exact iff_of_true none safe

theorem postFinish_keeps (handler : Nat) (requests : List (FinishRequest R)) :
    StepKeeps queue state (.postFinish handler requests) := by
  cases phase : state.finishWorks handler with
  | unstarted =>
      exact setFinish_keeps inv none _ handler (.next requests) (state.posted ++ requests)
        (by simp only [step, postFinish, phase]; rfl) (fun begun => absurd phase begun) trivial
  | _ => exact unchanged_keeps inv none _ (by simp only [step, postFinish, phase]) trivial

theorem finishRaises_keeps (handler : Nat) : StepKeeps queue state (.finishRaises handler) := by
  by_cases unstarted : state.finishWorks handler = .unstarted
  · exact unchanged_keeps inv none _ (by simp only [step, finishRaises, unstarted]) trivial
  · refine setFinish_keeps inv none _ handler .failed state.posted ?_ (fun _ => rfl) trivial
    simp only [step, finishRaises]
    rfl

theorem finishGet_keeps (handler : Nat) : StepKeeps queue state (.finishGet handler) := by
  by_cases asks : ∃ request rest, state.finishWorks handler = .next (request :: rest)
  · obtain ⟨request, rest, phase⟩ := asks
    cases found : queue.getId request.requestId state.store with
    | mk first store =>
        cases first with
        | none =>
            have missing := (queue.getId_none request.requestId state.store (by rw [found])).1
            refine setFinish_keeps inv none _ handler .failed state.posted ?_ (fun _ => rfl) ?_
            · simp only [step, finishGet, phase, found]
              rfl
            · intro other others same waits
              rw [phase] at same
              cases same
              obtain ⟨row, member, hit, _⟩ := inv.stored _ waits
              exact absurd hit (missing row member)
        | some item =>
            obtain ⟨_, edits⟩ := queue.getId_some request.requestId state.store item (by rw [found])
            rw [found] at edits
            let after : Cluster Store R := { state with
              store := store
              finishWorks := Function.update state.finishWorks handler
                (.fetched request item rest) }
            have outcome : step queue state (.finishGet handler) = after := by
              simp only [step, finishGet, phase, found]
              rfl
            constructor
            · rw [outcome]
              refine inv.of_progress after ?_ (fun _ _ _ awaits => awaits) (fun _ member => member)
                (progress_update handler (.fetched request item rest) _ rfl fun _ => ?_)
              · intro id waits
                exact storedIn_dequeued edits (inv.stored id waits)
              · rw [phase]
                exact ⟨by simp, fun _ => ⟨by simp, fun _ member => Or.inr member⟩⟩
            · rw [outcome]
              constructor
              · intro kept other others same waits
                rw [phase] at same
                cases same
                rcases kept _ waits with ready | held
                · exact absurd rfl ((readyIn_dequeued edits).mp ready).1
                · exact held
              · intro safe id waits
                by_cases hit : id = request.requestId
                · subst hit
                  exact Or.inr (safe request rest phase waits)
                · exact (none id waits).imp_left
                    fun ready => (readyIn_dequeued edits).mpr ⟨hit, ready⟩
  · refine unchanged_keeps inv none _ ?_ fun request rest same => absurd ⟨request, rest, same⟩ asks
    simp only [step, finishGet]
    split
    · rename_i request rest same
      exact absurd ⟨request, rest, same⟩ asks
    · rfl

theorem finishUpdate_keeps (handler : Nat) : StepKeeps queue state (.finishUpdate handler) := by
  cases phase : state.finishWorks handler with
  | fetched request item rest =>
      let after : Cluster Store R := { state with
        store := updateAndAck queue request.requestId (finishItem request item) state.store
        acked := state.acked ++ [request.requestId]
        finishWorks := Function.update state.finishWorks handler (.next rest) }
      have outcome : step queue state (.finishUpdate handler) = after := by
        simp only [step, finishUpdate, phase]
        rfl
      have before : ∀ id, Pending after id → Pending state id ∧ id ≠ request.requestId := by
        intro id given
        rcases given with ⟨member, unacked⟩
        simp only [after, List.mem_append, not_or, List.mem_singleton] at unacked
        exact ⟨⟨member, unacked.1⟩, unacked.2⟩
      constructor
      · rw [outcome]
        refine inv.of_progress after ?_ (fun _ _ _ awaits => awaits)
          (fun _ member => List.mem_append_left _ member)
          (progress_update handler (.next rest) _ rfl fun _ => ?_)
        · intro id waits
          obtain ⟨old, apart⟩ := before id waits
          exact storedIn_updateAndAck _ _ apart (inv.stored id old)
        · rw [phase]
          refine ⟨by simp, fun _ => ⟨by simp, fun id member => ?_⟩⟩
          rcases List.mem_cons.mp member with rfl | later
          · exact Or.inl (List.mem_append_right _ List.mem_cons_self)
          · exact Or.inr later
      · rw [outcome]
        refine iff_of_true ?_ trivial
        intro id waits
        obtain ⟨old, apart⟩ := before id waits
        exact (none id old).imp_left (readyIn_updateAndAck _ _ apart)
  | _ => exact unchanged_keeps inv none _ (by simp only [step, finishUpdate, phase]) trivial

theorem clearAcked_keeps : StepKeeps queue state .clearAcked := by
  constructor
  · exact inv.of_progress _ (fun id waits => storedIn_clear state.store (inv.stored id waits))
      (fun _ _ _ awaits => awaits) (fun _ member => member)
      fun handler => Progress.of_same handler rfl
  · exact iff_of_true
      (fun id waits => (none id waits).imp_left (readyIn_clear state.store)) trivial

omit none in
theorem restartServer_keeps : StepKeeps queue state .restartServer := by
  have ready : ∀ id, Pending state id → ReadyIn queue (queue.resumeUnackTasks state.store) id :=
    fun id waits => readyIn_resume state.store (inv.stored id waits)
  constructor
  · refine inv.of_progress _ (fun id waits => storedIn_of_readyIn _ (ready id waits))
      (fun _ _ _ awaits => awaits) (fun _ member => member) fun handler begun => ?_
    have cut : (restartServer queue state).finishWorks handler = .failed := by
      simp only [restartServer]
      cases phase : state.finishWorks handler with
      | unstarted => exact absurd phase begun
      | _ => rfl
    simp only [step]
    rw [cut]
    exact ⟨by simp, fun alive => absurd rfl alive⟩
  · exact iff_of_true (fun id waits => Or.inl (ready id waits)) trivial

theorem step_keeps (event : Event R) : StepKeeps queue state event := by
  cases event with
  | enqueue call => exact enqueue_keeps inv none call
  | startStep worker handler batchSize => exact startStep_keeps inv none worker handler batchSize
  | dequeue handler => exact dequeue_keeps inv none handler
  | getWorkStops handler => exact getWorkStops_keeps inv none handler
  | receiveWork worker => exact receiveWork_keeps inv none worker
  | postResults worker handler results => exact postResults_keeps inv none worker handler results
  | finishStep worker => exact finishStep_keeps inv none worker
  | stepRaises worker => exact stepRaises_keeps inv none worker
  | postFinish handler requests => exact postFinish_keeps inv none handler requests
  | finishGet handler => exact finishGet_keeps inv none handler
  | finishUpdate handler => exact finishUpdate_keeps inv none handler
  | finishRaises handler => exact finishRaises_keeps inv none handler
  | clearAcked => exact clearAcked_keeps inv none
  | restartServer => exact restartServer_keeps inv
  | _ => exact onlyCalls_keeps inv none _ trivial

end Steps

section Runs

variable {Store R : Type} (queue : AckQueue Store (Item R))

theorem initial_consistent : Consistent (initial queue) queue where
  stored := fun _ waits => absurd waits.1 List.not_mem_nil
  finishing := fun _ _ _ awaits => by cases awaits

theorem initial_noneLost : NoneLost (initial queue) queue :=
  fun _ waits => absurd waits.1 List.not_mem_nil

/-- In every state of a run all accepted requests that are not acked are ready or held
by a running step, exactly when all events of the run are safe. -/
theorem none_lost_iff (events : List (Event R)) :
    Always (step queue) (NoneLost · queue) (initial queue) events ↔
      AllSteps (step queue) (Safe · queue) (initial queue) events := by
  rw [always_iff_allSteps, and_iff_right (initial_noneLost queue)]
  refine allSteps_iff _ (fun state => Consistent state queue ∧ NoneLost state queue)
    (fun _ _ => True) _ _ ?_ ?_ _ _ ⟨initial_consistent queue, initial_noneLost queue⟩ ?_
  · intro state event given _
    rcases given with ⟨inv, none⟩
    exact (step_keeps inv none event).exactly
  · intro state event given _ kept
    rcases given with ⟨inv, none⟩
    exact ⟨(step_keeps inv none event).consistent, kept⟩
  · exact allSteps_of_forall _ _ (fun _ _ => trivial) _ _

end Runs

/-- A worker gets a request and its step raises: nobody has the request any more. -/
theorem request_lost :
    ¬ ∀ events : List (Event String),
      Always (step (tableQueue (Item String))) (NoneLost · (tableQueue (Item String)))
        (initial (tableQueue (Item String))) events := by
  intro claimed
  let events : List (Event String) := [.submit 0 .generate ["prompt"] (some "model") none,
    .enqueue 0, .startStep 0 0 1, .dequeue 0, .dequeue 0, .receiveWork 0, .stepRaises 0]
  let final := run (step (tableQueue (Item String))) (initial (tableQueue (Item String))) events
  have last : NoneLost final (tableQueue (Item String)) :=
    (always_iff_prefixes _ _ _ _).mp (claimed events) events [] (List.append_nil _).symm
  have rows : (tableQueue (Item String)).queue final.store =
      [⟨1, .unack, generateItem "model" none "prompt"⟩] := rfl
  have idle : ∀ worker, final.workers worker = .idle := by
    intro worker
    by_cases hit : worker = 0
    · rw [hit]
      rfl
    · change Function.update (Function.update (Function.update _ 0 _) 0 _) 0 _ worker = _
      rw [Function.update_of_ne hit, Function.update_of_ne hit, Function.update_of_ne hit]
      rfl
  rcases last 1 ⟨by decide, by decide⟩ with ⟨row, member, _, ready⟩ | ⟨worker, member⟩
  · rw [rows] at member
    rw [List.mem_singleton.mp member] at ready
    cases ready
  · rw [heldIds, idle worker] at member
    cases member

end ScalarLM.Queue
