import ScalarLM.Lib.Transition
import ScalarLM.Queue.Cluster

/-! What the steps of the inference service do to the rows of the work queue. -/

namespace ScalarLM.Queue

open Transition

section Rows

variable {Store R : Type} {queue : AckQueue Store (Item R)}

theorem mem_updateAndAck_iff (id : Nat) (item : Item R) (store : Store) (row : Row (Item R)) :
    row ∈ queue.queue (updateAndAck queue id item store) ↔
      ∃ old ∈ queue.queue store, (old.updated id item).marked id .acked = row := by
  rw [updateAndAck, (queue.ack_edits id _).1]
  constructor
  · intro given
    rcases given with ⟨middle, member, rfl⟩
    obtain ⟨old, present, rfl⟩ := ((queue.update_edits id item store).1 middle).mp member
    exact ⟨old, present, rfl⟩
  · intro given
    rcases given with ⟨old, present, rfl⟩
    exact ⟨_, ((queue.update_edits id item store).1 _).mpr ⟨old, present, rfl⟩, rfl⟩

theorem lastId_updateAndAck (id : Nat) (item : Item R) (store : Store) :
    queue.lastId (updateAndAck queue id item store) = queue.lastId store :=
  (queue.ack_edits id _).2.trans (queue.update_edits id item store).2

theorem getIfFinished_of_acked (store : Store) (row : Row (Item R))
    (member : row ∈ queue.queue store) (acked : row.status = .acked) :
    getIfFinished queue row.id store = some row.data := by
  unfold getIfFinished
  cases found : (queue.queue store).find? fun other =>
      other.id = row.id ∧ other.status = .acked with
  | none =>
      have missing := List.find?_eq_none.mp found row member
      simp [acked] at missing
  | some other =>
      have hit : other.id = row.id ∧ other.status = .acked := by
        simpa using List.find?_some found
      have same := queue.unique store other (List.mem_of_find?_eq_some found) row member hit.1
      rw [same]
      rfl

theorem acked_of_getIfFinished (store : Store) (id : Nat) (item : Item R)
    (found : getIfFinished queue id store = some item) :
    ⟨id, .acked, item⟩ ∈ queue.queue store := by
  obtain ⟨row, first, rfl⟩ := Option.map_eq_some_iff.mp found
  have hit : row.id = id ∧ row.status = .acked := by
    simpa using List.find?_some first
  have member := List.mem_of_find?_eq_some first
  rw [← hit.1, ← hit.2]
  exact member

end Rows

section Present

variable {Store R : Type} (queue : AckQueue Store (Item R))

def HasRow (store : Store) (id : Nat) : Prop := ∃ row ∈ queue.queue store, row.id = id

variable {queue} {id : Nat} {store : Store}

theorem HasRow.edits {edit : Row (Item R) → Row (Item R)} {after : Store}
    (present : HasRow queue store id) (edits : Edits queue.queue queue.lastId edit store after)
    (keeps : ∀ row, (edit row).id = row.id) : HasRow queue after id := by
  obtain ⟨row, member, rfl⟩ := present
  exact ⟨edit row, (edits.1 _).mpr ⟨row, member, rfl⟩, keeps row⟩

theorem hasRow_edits_iff {edit : Row (Item R) → Row (Item R)} {after : Store}
    (edits : Edits queue.queue queue.lastId edit store after)
    (keeps : ∀ row, (edit row).id = row.id) : HasRow queue after id ↔ HasRow queue store id := by
  constructor
  · intro present
    obtain ⟨row, member, rfl⟩ := present
    obtain ⟨old, there, rfl⟩ := (edits.1 row).mp member
    exact ⟨old, there, (keeps old).symm⟩
  · exact fun present => present.edits edits keeps

theorem HasRow.put (item : Item R) (present : HasRow queue store id) :
    HasRow queue (queue.put item store).2 id := by
  obtain ⟨row, member, hit⟩ := present
  exact ⟨row, (queue.put_queue item store row).mpr (Or.inl member), hit⟩

theorem hasRow_updateAndAck_iff (other : Nat) (item : Item R) :
    HasRow queue (updateAndAck queue other item store) id ↔ HasRow queue store id :=
  (hasRow_edits_iff (queue.ack_edits other _) (Row.marked_id _ _)).trans
    (hasRow_edits_iff (queue.update_edits other item store) (Row.updated_id _ _))

theorem HasRow.updateAndAck (other : Nat) (item : Item R) (present : HasRow queue store id) :
    HasRow queue (updateAndAck queue other item store) id :=
  (hasRow_updateAndAck_iff other item).mpr present

theorem HasRow.getId (present : HasRow queue store id) :
    ∃ item, (queue.getId id store).1 = some item := by
  cases found : (queue.getId id store).1 with
  | some item => exact ⟨item, rfl⟩
  | none =>
      obtain ⟨row, member, hit⟩ := present
      exact absurd hit ((queue.getId_none id store found).1 row member)

theorem HasRow.get {other : Nat} {item : Item R}
    (found : (queue.get store).1 = some (other, item)) (present : HasRow queue store id) :
    HasRow queue (queue.get store).2 id :=
  present.edits (queue.get_some store other item found).2.2 (Row.marked_id _ _)

theorem hasRow_got {item : Item R} (found : (queue.get store).1 = some (id, item)) :
    HasRow queue (queue.get store).2 id :=
  HasRow.get found ⟨_, (queue.get_some store id item found).1, rfl⟩

end Present

section Steps

variable {Store R : Type} (queue : AckQueue Store (Item R)) (state : Cluster Store R)

inductive StoreStep : Event R → Store → Prop where
  | same (event : Event R) : StoreStep event state.store
  | put (call : Nat) (item : Item R) : StoreStep (.enqueue call) (queue.put item state.store).2
  | get (handler id : Nat) (item : Item R) (found : (queue.get state.store).1 = some (id, item)) :
      StoreStep (.dequeue handler) (queue.get state.store).2
  | getId (handler : Nat) (request : FinishRequest R) (rest : List (FinishRequest R))
      (item : Item R) (phase : state.finishWorks handler = .next (request :: rest))
      (found : (queue.getId request.requestId state.store).1 = some item) :
      StoreStep (.finishGet handler) (queue.getId request.requestId state.store).2
  | updateAndAck (handler : Nat) (request : FinishRequest R) (item : Item R)
      (rest : List (FinishRequest R))
      (phase : state.finishWorks handler = .fetched request item rest) :
      StoreStep (.finishUpdate handler)
        (updateAndAck queue request.requestId (finishItem request item) state.store)
  | clearAckedData : StoreStep .clearAcked (queue.clearAckedData state.store)
  | resumeUnackTasks : StoreStep .restartServer (queue.resumeUnackTasks state.store)

theorem finishGet_found (handler : Nat) (request : FinishRequest R)
    (rest : List (FinishRequest R)) (item : Item R)
    (phase : state.finishWorks handler = .next (request :: rest))
    (found : (queue.getId request.requestId state.store).1 = some item) :
    finishGet queue state handler = { state with
      store := (queue.getId request.requestId state.store).2
      finishWorks := Function.update state.finishWorks handler (.fetched request item rest) } := by
  cases taken : queue.getId request.requestId state.store with
  | mk first store =>
      rw [taken] at found
      obtain rfl : first = some item := found
      simp only [finishGet, phase, taken]

theorem finishGet_storeStep (handler : Nat) :
    StoreStep queue state (.finishGet handler) (finishGet queue state handler).store := by
  unfold finishGet
  split
  · rename_i request rest phase
    split
    · rename_i item store found
      have same : store = (queue.getId request.requestId state.store).2 := by rw [found]
      change StoreStep queue state (.finishGet handler) store
      rw [same]
      exact .getId handler request rest item phase (by rw [found])
    · exact .same _
  · exact .same _

theorem finishUpdate_storeStep (handler : Nat) :
    StoreStep queue state (.finishUpdate handler) (finishUpdate queue state handler).store := by
  unfold finishUpdate
  split
  · rename_i request item rest phase
    exact .updateAndAck handler request item rest phase
  · exact .same _

theorem enqueue_storeStep (call : Nat) :
    StoreStep queue state (.enqueue call) (enqueue queue state call).store := by
  unfold enqueue
  dsimp only
  split
  · exact .same _
  · exact .put call _
  · exact .same _

theorem dequeue_storeStep (handler : Nat) :
    StoreStep queue state (.dequeue handler) (dequeue queue state handler).store := by
  rcases dequeue_cases queue state handler with
    ⟨id, item, phase, _, found, outcome, _⟩ | ⟨_, phase, outcome, _⟩
  · rw [outcome]
    exact .get handler id item found
  · rw [outcome]
    exact .same _

theorem step_storeStep (event : Event R) :
    StoreStep queue state event (step queue state event).store := by
  have loops (only : event.OnlyLoops) :
      StoreStep queue state event (step queue state event).store := by
    obtain ⟨workers, getWorks, outcome⟩ := step_onlyLoops queue state event only
    rw [outcome]
    exact .same event
  have calls (only : event.OnlyCalls) :
      StoreStep queue state event (step queue state event).store := by
    obtain ⟨calls, outcome⟩ := step_onlyCalls queue state event only
    rw [outcome]
    exact .same event
  have posts (only : event.OnlyPosts) :
      StoreStep queue state event (step queue state event).store := by
    obtain ⟨workers, finishWorks, posted, outcome, _⟩ := step_onlyPosts queue state event only
    rw [outcome]
    exact .same event
  cases event with
  | enqueue call => exact enqueue_storeStep queue state call
  | dequeue handler => exact dequeue_storeStep queue state handler
  | finishGet handler => exact finishGet_storeStep queue state handler
  | finishUpdate handler => exact finishUpdate_storeStep queue state handler
  | clearAcked => exact .clearAckedData
  | restartServer => exact .resumeUnackTasks
  | postResults | postFinish | finishRaises => exact posts trivial
  | submit | enqueueRaises | pollPass | pollNext | pollRaises | receive | check | clientRaises =>
      exact calls trivial
  | startStep | getWorkStops | receiveWork | finishStep | stepRaises => exact loops trivial

omit queue state in
def Event.Records : Event R → Prop
  | .enqueue _ => True
  | .finishUpdate _ => True
  | _ => False

theorem step_histories (event : Event R) (other : ¬ event.Records) :
    (step queue state event).accepted = state.accepted ∧
      (step queue state event).acked = state.acked := by
  have calls (only : event.OnlyCalls) : (step queue state event).accepted = state.accepted ∧
      (step queue state event).acked = state.acked := by
    obtain ⟨calls, outcome⟩ := step_onlyCalls queue state event only
    rw [outcome]
    exact ⟨rfl, rfl⟩
  have loops (only : event.OnlyLoops) : (step queue state event).accepted = state.accepted ∧
      (step queue state event).acked = state.acked := by
    obtain ⟨workers, getWorks, outcome⟩ := step_onlyLoops queue state event only
    rw [outcome]
    exact ⟨rfl, rfl⟩
  have posts (only : event.OnlyPosts) : (step queue state event).accepted = state.accepted ∧
      (step queue state event).acked = state.acked := by
    obtain ⟨workers, finishWorks, posted, outcome, _⟩ := step_onlyPosts queue state event only
    rw [outcome]
    exact ⟨rfl, rfl⟩
  cases event with
  | enqueue call => exact absurd trivial other
  | finishUpdate handler => exact absurd trivial other
  | dequeue handler =>
      rcases dequeue_cases queue state handler with
        ⟨_, _, _, _, _, outcome, _⟩ | ⟨_, _, outcome, _⟩
      · rw [step, outcome]
        exact ⟨rfl, rfl⟩
      · rw [step, outcome]
        exact ⟨rfl, rfl⟩
  | finishGet handler =>
      simp only [step, finishGet]
      split
      · split <;> exact ⟨rfl, rfl⟩
      · exact ⟨rfl, rfl⟩
  | postResults | postFinish | finishRaises => exact posts trivial
  | clearAcked | restartServer => exact ⟨rfl, rfl⟩
  | submit | enqueueRaises | pollPass | pollNext | pollRaises | receive | check | clientRaises =>
      exact calls trivial
  | startStep | getWorkStops | receiveWork | finishStep | stepRaises => exact loops trivial

theorem step_acked (event : Event R) :
    (step queue state event).acked = state.acked ∨
      ∃ handler request item rest, event = .finishUpdate handler ∧
        state.finishWorks handler = .fetched request item rest ∧
        (step queue state event).acked = state.acked ++ [request.requestId] := by
  have quiet (other : ¬ event.Records) := (step_histories queue state event other).2
  cases event with
  | finishUpdate handler =>
      cases phase : state.finishWorks handler with
      | fetched request item rest =>
          refine Or.inr ⟨handler, request, item, rest, rfl, phase, ?_⟩
          simp only [step, finishUpdate, phase]
      | _ => exact Or.inl (by simp only [step, finishUpdate, phase])
  | enqueue call =>
      refine Or.inl ?_
      simp only [step, enqueue]
      split <;> rfl
  | _ => exact Or.inl (quiet id)

/-- A row is fetched for a `finish_work` only by its `get_id`. -/
theorem step_fetched (event : Event R) (handler : Nat) (request : FinishRequest R) (item : Item R)
    (rest : List (FinishRequest R))
    (phase : (step queue state event).finishWorks handler = .fetched request item rest) :
    state.finishWorks handler = .fetched request item rest ∨
      event = .finishGet handler ∧ state.finishWorks handler = .next (request :: rest) ∧
        (queue.getId request.requestId state.store).1 = some item := by
  have same (unchanged : (step queue state event).finishWorks = state.finishWorks) :
      state.finishWorks handler = .fetched request item rest := by
    rwa [unchanged] at phase
  have calls (only : event.OnlyCalls) :
      (step queue state event).finishWorks = state.finishWorks := by
    obtain ⟨calls, outcome⟩ := step_onlyCalls queue state event only
    rw [outcome]
  have loops (only : event.OnlyLoops) :
      (step queue state event).finishWorks = state.finishWorks := by
    obtain ⟨workers, getWorks, outcome⟩ := step_onlyLoops queue state event only
    rw [outcome]
  have posts (only : event.OnlyPosts) :
      state.finishWorks handler = .fetched request item rest := by
    obtain ⟨workers, finishWorks, posted, outcome, kept⟩ := step_onlyPosts queue state event only
    rw [outcome] at phase
    exact kept handler request item rest phase
  cases event with
  | finishGet other =>
      cases before : state.finishWorks other with
      | next requests =>
          cases requests with
          | nil => exact Or.inl (same (by simp only [step, finishGet, before]))
          | cons first others =>
              cases found : queue.getId first.requestId state.store with
              | mk got store =>
                  cases got with
                  | none =>
                      simp only [step, finishGet, before, found] at phase
                      exact Or.inl (fetched_of_update (by simp) phase)
                  | some old =>
                      simp only [step, finishGet, before, found] at phase
                      by_cases hit : handler = other
                      · subst hit
                        rw [Function.update_self, FinishWork.fetched.injEq] at phase
                        obtain ⟨rfl, rfl, rfl⟩ := phase
                        exact Or.inr ⟨rfl, before, by rw [found]⟩
                      · rw [Function.update_of_ne hit] at phase
                        exact Or.inl phase
      | _ => exact Or.inl (same (by simp only [step, finishGet, before]))
  | finishUpdate other =>
      cases before : state.finishWorks other with
      | fetched first old others =>
          simp only [step, finishUpdate, before] at phase
          exact Or.inl (fetched_of_update (by simp) phase)
      | _ => exact Or.inl (same (by simp only [step, finishUpdate, before]))
  | enqueue call =>
      refine Or.inl (same ?_)
      simp only [step, enqueue]
      split <;> rfl
  | dequeue other =>
      refine Or.inl (same ?_)
      rcases dequeue_cases queue state other with
        ⟨_, _, _, _, _, outcome, _⟩ | ⟨_, _, outcome, _⟩
      · rw [step, outcome]
      · rw [step, outcome]
  | postResults | postFinish | finishRaises => exact Or.inl (posts trivial)
  | restartServer =>
      simp only [step, restartServer] at phase
      cases before : state.finishWorks handler with
      | unstarted =>
          rw [before] at phase
          cases phase
      | _ =>
          rw [before] at phase
          cases phase
  | clearAcked => exact Or.inl phase
  | submit | enqueueRaises | pollPass | pollNext | pollRaises | receive | check | clientRaises =>
      exact Or.inl (same (calls trivial))
  | startStep | getWorkStops | receiveWork | finishStep | stepRaises =>
      exact Or.inl (same (loops trivial))

end Steps

section Issued

variable {Store R : Type} {queue : AckQueue Store (Item R)}

def Issued (queue : AckQueue Store (Item R)) (store : Store) : Prop :=
  ∀ row ∈ queue.queue store, row.id ≤ queue.lastId store

theorem Issued.edits {edit : Row (Item R) → Row (Item R)} {before after : Store}
    (issued : Issued queue before) (edits : Edits queue.queue queue.lastId edit before after)
    (keeps : ∀ row, (edit row).id = row.id) : Issued queue after := by
  intro row member
  obtain ⟨old, present, rfl⟩ := (edits.1 row).mp member
  rw [keeps, edits.2]
  exact issued old present

theorem Issued.step {state : Cluster Store R} {event : Event R} {after : Store}
    (issued : Issued queue state.store) (change : StoreStep queue state event after) :
    Issued queue after := by
  cases change with
  | same => exact issued
  | put call item =>
      intro row member
      rw [queue.put_lastId]
      rcases (queue.put_queue item state.store row).mp member with old | rfl
      · exact Nat.le_of_lt (Nat.lt_of_le_of_lt (issued row old) (queue.put_id item state.store))
      · exact Nat.le_refl _
  | get handler id item found =>
      exact issued.edits (queue.get_some state.store id item found).2.2 (Row.marked_id _ _)
  | getId handler request rest item phase found =>
      exact issued.edits (queue.getId_some _ state.store item found).2 (Row.marked_id _ _)
  | updateAndAck handler request item rest phase =>
      have updated := issued.edits
        (queue.update_edits request.requestId (finishItem request item) state.store)
        (Row.updated_id _ _)
      exact updated.edits (queue.ack_edits request.requestId _) (Row.marked_id _ _)
  | clearAckedData =>
      intro row member
      rw [queue.clear_lastId]
      exact issued row (queue.clear_queue state.store row member)
  | resumeUnackTasks => exact issued.edits (queue.resume_edits state.store) Row.resumed_id

theorem initial_issued : Issued queue (initial queue).store := by
  intro row member
  change row ∈ queue.queue queue.empty at member
  rw [queue.queue_empty] at member
  exact absurd member List.not_mem_nil

theorem run_issued (events : List (Event R)) :
    Issued queue (run (step queue) (initial queue) events).store :=
  run_of_invariant _ (fun state => Issued queue state.store) (fun _ _ => True)
    (fun state event issued _ => issued.step (step_storeStep queue state event)) _ _
    initial_issued (allSteps_of_forall _ _ (fun _ _ => trivial) _ _)

end Issued

end ScalarLM.Queue
