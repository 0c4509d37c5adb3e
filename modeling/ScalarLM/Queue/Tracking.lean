import ScalarLM.Queue.Responses
import ScalarLM.Queue.RetainingQueue
import ScalarLM.Queue.StoreSteps

/-! Which ids the rows of the work queue show as acked, along the steps of the service. -/

namespace ScalarLM.Queue

section Finished

variable {Store R : Type} {queue : AckQueue Store (Item R)}

theorem getIfFinished_iff (store : Store) (id : Nat) :
    (∃ item, getIfFinished queue id store = some item) ↔ id ∈ ackedIds (queue.queue store) := by
  rw [mem_ackedIds]
  constructor
  · intro given
    rcases given with ⟨item, found⟩
    exact ⟨_, acked_of_getIfFinished store id item found, rfl, rfl⟩
  · intro given
    rcases given with ⟨row, member, rfl, acked⟩
    exact ⟨row.data, getIfFinished_of_acked store row member acked⟩

theorem ackedIds_edits {edit : Row (Item R) → Row (Item R)} {before after : Store} {id : Nat}
    (edits : Edits queue.queue queue.lastId edit before after)
    (keeps : ∀ row, (edit row).id = row.id)
    (acked : ∀ row ∈ queue.queue before, row.id = id → row.status = .acked →
      (edit row).status = .acked)
    (present : id ∈ ackedIds (queue.queue before)) : id ∈ ackedIds (queue.queue after) := by
  obtain ⟨row, member, same, status⟩ := (mem_ackedIds _ _).mp present
  refine (mem_ackedIds _ _).mpr ⟨edit row, (edits.1 _).mpr ⟨row, member, rfl⟩, ?_, ?_⟩
  · rw [keeps, same]
  · exact acked row member same status

theorem not_mem_ackedIds {before after : Store} {id : Nat}
    (edits : Edits queue.queue queue.lastId (Row.marked id .unack) before after) :
    id ∉ ackedIds (queue.queue after) := by
  intro acked
  obtain ⟨row, member, same, status⟩ := (mem_ackedIds _ _).mp acked
  obtain ⟨old, _, rfl⟩ := (edits.1 row).mp member
  rw [Row.marked_id] at same
  rw [Row.marked_same id .unack old same] at status
  cases status

theorem ackedIds_step {state : Cluster Store R} {event : Event R} {after : Store} {id : Nat}
    (change : StoreStep queue state event after) (present : id ∈ ackedIds (queue.queue state.store))
    (unfetched : ∀ handler request rest, event = .finishGet handler →
      state.finishWorks handler = .next (request :: rest) → request.requestId ≠ id)
    (uncleared : event = .clearAcked →
      id ∈ ackedIds (queue.queue (queue.clearAckedData state.store))) :
    id ∈ ackedIds (queue.queue after) := by
  cases change with
  | same => exact present
  | put call item =>
      obtain ⟨row, member, hit⟩ := (mem_ackedIds _ _).mp present
      exact (mem_ackedIds _ _).mpr
        ⟨row, (queue.put_queue item state.store row).mpr (Or.inl member), hit⟩
  | get handler other item found =>
      obtain ⟨ready, _, edits⟩ := queue.get_some state.store other item found
      refine ackedIds_edits edits (Row.marked_id _ _) ?_ present
      intro row member _ acked
      have apart : row.id ≠ other := by
        intro equal
        rw [queue.unique state.store row member _ ready equal] at acked
        cases acked
      rw [Row.marked_other other .unack row apart, acked]
  | getId handler request rest item phase found =>
      refine ackedIds_edits (queue.getId_some _ state.store item found).2 (Row.marked_id _ _) ?_
        present
      intro row _ same acked
      have apart : row.id ≠ request.requestId :=
        fun equal => unfetched handler request rest rfl phase (equal.symm.trans same)
      rw [Row.marked_other _ .unack row apart, acked]
  | updateAndAck handler request item rest phase =>
      have updated := ackedIds_edits
        (queue.update_edits request.requestId (finishItem request item) state.store)
        (Row.updated_id _ _) (by
          intro row _ _ acked
          unfold Row.updated
          split
          · exact acked
          · exact acked) present
      refine ackedIds_edits (queue.ack_edits request.requestId _) (Row.marked_id _ _) ?_ updated
      intro row _ _ acked
      unfold Row.marked
      split
      · rfl
      · exact acked
  | clearAckedData => exact uncleared rfl
  | resumeUnackTasks =>
      refine ackedIds_edits (queue.resume_edits state.store) Row.resumed_id ?_ present
      intro row _ _ acked
      rw [Row.resumed, if_neg (by simp [acked])]
      exact acked

theorem ackedIds_of_edits {edit : Row (Item R) → Row (Item R)} {before after : Store} {id : Nat}
    (edits : Edits queue.queue queue.lastId edit before after)
    (keeps : ∀ row, (edit row).id = row.id)
    (acked : ∀ row, row.id = id → (edit row).status = .acked → row.status = .acked)
    (present : id ∈ ackedIds (queue.queue after)) : id ∈ ackedIds (queue.queue before) := by
  obtain ⟨row, member, same, status⟩ := (mem_ackedIds _ _).mp present
  obtain ⟨old, there, rfl⟩ := (edits.1 row).mp member
  rw [keeps] at same
  exact (mem_ackedIds _ _).mpr ⟨old, there, same, acked old same status⟩

theorem Row.acked_of_taken (other : Nat) (row : Row (Item R))
    (acked : (row.marked other .unack).status = .acked) : row.status = .acked := by
  unfold Row.marked at acked
  split at acked
  · cases acked
  · exact acked

theorem ackedIds_of_step {state : Cluster Store R} {event : Event R} {after : Store} {id : Nat}
    (change : StoreStep queue state event after) (present : id ∈ ackedIds (queue.queue after)) :
    id ∈ ackedIds (queue.queue state.store) ∨
      ∃ handler request item rest, event = .finishUpdate handler ∧
        state.finishWorks handler = .fetched request item rest ∧ request.requestId = id := by
  cases change with
  | same => exact Or.inl present
  | put call item =>
      obtain ⟨row, member, same, acked⟩ := (mem_ackedIds _ _).mp present
      rcases (queue.put_queue item state.store row).mp member with old | rfl
      · exact Or.inl ((mem_ackedIds _ _).mpr ⟨row, old, same, acked⟩)
      · cases acked
  | get handler other item found =>
      exact Or.inl (ackedIds_of_edits (queue.get_some state.store other item found).2.2
        (Row.marked_id _ _) (fun row _ => Row.acked_of_taken other row) present)
  | getId handler request rest item phase found =>
      exact Or.inl (ackedIds_of_edits (queue.getId_some _ state.store item found).2
        (Row.marked_id _ _) (fun row _ => Row.acked_of_taken _ row) present)
  | updateAndAck handler request item rest phase =>
      by_cases hit : request.requestId = id
      · exact Or.inr ⟨handler, request, item, rest, rfl, phase, hit⟩
      · have unmarked := ackedIds_of_edits (queue.ack_edits request.requestId _) (Row.marked_id _ _)
          (by
            intro row same acked
            rwa [Row.marked_other _ .acked row (fun equal => hit (equal.symm.trans same))] at acked)
          present
        refine Or.inl (ackedIds_of_edits
          (queue.update_edits request.requestId (finishItem request item) state.store)
          (Row.updated_id _ _) ?_ unmarked)
        intro row same acked
        rwa [Row.updated, if_neg (fun equal => hit (equal.symm.trans same))] at acked
  | clearAckedData =>
      obtain ⟨row, member, given⟩ := (mem_ackedIds _ _).mp present
      exact Or.inl ((mem_ackedIds _ _).mpr ⟨row, queue.clear_queue _ row member, given⟩)
  | resumeUnackTasks =>
      refine Or.inl (ackedIds_of_edits (queue.resume_edits state.store) Row.resumed_id ?_ present)
      intro row _ acked
      unfold Row.resumed at acked
      split at acked
      · cases acked
      · exact acked

theorem hasRow_step {state : Cluster Store R} {event : Event R} {after : Store} {id : Nat}
    (change : StoreStep queue state event after) (present : HasRow queue state.store id) :
    HasRow queue after id ∨ id ∈ ackedIds (queue.queue state.store) := by
  cases change with
  | same => exact Or.inl present
  | put call item => exact Or.inl (present.put item)
  | get handler other item found => exact Or.inl (present.get found)
  | getId handler request rest item phase found =>
      exact Or.inl (present.edits (queue.getId_some _ state.store item found).2 (Row.marked_id _ _))
  | updateAndAck handler request item rest phase => exact Or.inl (present.updateAndAck _ _)
  | clearAckedData =>
      obtain ⟨row, member, same⟩ := present
      by_cases acked : row.status = .acked
      · exact Or.inr ((mem_ackedIds _ _).mpr ⟨row, member, same, acked⟩)
      · exact Or.inl ⟨row, queue.clear_kept _ row member acked, same⟩
  | resumeUnackTasks => exact Or.inl (present.edits (queue.resume_edits _) Row.resumed_id)

theorem lastId_step {state : Cluster Store R} {event : Event R} {after : Store}
    (change : StoreStep queue state event after) :
    queue.lastId state.store ≤ queue.lastId after := by
  cases change with
  | same => exact Nat.le_refl _
  | put call item =>
      rw [queue.put_lastId]
      exact Nat.le_of_lt (queue.put_id item state.store)
  | get handler other item found =>
      exact Nat.le_of_eq (queue.get_some state.store other item found).2.2.2.symm
  | getId handler request rest item phase found =>
      exact Nat.le_of_eq (queue.getId_some _ state.store item found).2.2.symm
  | updateAndAck handler request item rest phase =>
      exact Nat.le_of_eq (lastId_updateAndAck _ _ _).symm
  | clearAckedData => exact Nat.le_of_eq (queue.clear_lastId _).symm
  | resumeUnackTasks => exact Nat.le_of_eq (queue.resume_edits state.store).2.symm

theorem ackedIds_updateAndAck (store : Store) (id : Nat) (item : Item R)
    (present : HasRow queue store id) :
    id ∈ ackedIds (queue.queue (updateAndAck queue id item store)) := by
  obtain ⟨row, member, same⟩ := present
  refine (mem_ackedIds _ _).mpr ⟨_, (mem_updateAndAck_iff _ _ _ _).mpr ⟨row, member, rfl⟩, ?_, ?_⟩
  · rw [Row.marked_id, Row.updated_id, same]
  · exact Row.marked_same _ _ _ ((Row.updated_id _ _ row).trans same)

end Finished

section Tracking

variable {Store R : Type} (queue : AckQueue Store (Item R))

/-- The ids acked are issued and cover the acked rows; a fetched row is there until it
is acked. -/
structure Tracked (state : Cluster Store R) : Prop where
  sound : Sound queue state
  issued : Issued queue state.store
  rows : ∀ id ∈ ackedIds (queue.queue state.store), id ∈ state.acked
  acked : ∀ id ∈ state.acked, id ≤ queue.lastId state.store
  fetched : ∀ handler request item rest,
    state.finishWorks handler = .fetched request item rest →
      request.requestId ≤ queue.lastId state.store ∧
        (request.requestId ∈ state.acked ∨ HasRow queue state.store request.requestId)

variable {queue} {state : Cluster Store R}

theorem mem_acked_step {id : Nat} (event : Event R) (member : id ∈ state.acked) :
    id ∈ (step queue state event).acked := by
  rcases step_acked queue state event with same | ⟨_, _, _, _, _, _, grown⟩
  · rwa [same]
  · rw [grown]
    exact List.mem_append_left _ member

theorem Tracked.step (tracked : Tracked queue state) (event : Event R) :
    Tracked queue (step queue state event) := by
  have change := step_storeStep queue state event
  have later := lastId_step change
  constructor
  · exact step_sound tracked.sound event
  · exact tracked.issued.step change
  · intro id present
    rcases ackedIds_of_step change present with
      old | ⟨handler, request, item, rest, rfl, phase, rfl⟩
    · exact mem_acked_step event (tracked.rows id old)
    · change request.requestId ∈ (finishUpdate queue state handler).acked
      rw [finishUpdate, phase]
      exact List.mem_append_right _ List.mem_cons_self
  · intro id member
    rcases step_acked queue state event with same | ⟨handler, request, item, rest, _, phase, grown⟩
    · rw [same] at member
      exact Nat.le_trans (tracked.acked id member) later
    · rw [grown] at member
      rcases List.mem_append.mp member with old | new
      · exact Nat.le_trans (tracked.acked id old) later
      · rw [List.mem_singleton.mp new]
        exact Nat.le_trans (tracked.fetched handler request item rest phase).1 later
  · intro handler request item rest phase
    have rows : request.requestId ≤ queue.lastId state.store ∧
        (request.requestId ∈ state.acked ∨ HasRow queue state.store request.requestId) := by
      rcases step_fetched queue state event handler request item rest phase with
        before | ⟨_, _, found⟩
      · exact tracked.fetched handler request item rest before
      · obtain ⟨⟨row, member, same, _⟩, _⟩ := queue.getId_some _ state.store item found
        rw [← same]
        exact ⟨tracked.issued row member, Or.inr ⟨row, member, rfl⟩⟩
    refine ⟨Nat.le_trans rows.1 later, ?_⟩
    rcases rows.2 with acked | present
    · exact Or.inl (mem_acked_step event acked)
    · rcases hasRow_step change present with kept | gone
      · exact Or.inr kept
      · exact Or.inl (mem_acked_step event (tracked.rows _ gone))

theorem initial_tracked : Tracked queue (initial queue) where
  sound := initial_sound
  issued := initial_issued
  rows := by
    intro id present
    obtain ⟨row, member, _⟩ := (mem_ackedIds _ _).mp present
    change row ∈ queue.queue queue.empty at member
    rw [queue.queue_empty] at member
    exact absurd member List.not_mem_nil
  acked := List.forall_mem_nil _
  fetched := fun _ _ _ _ phase => by cases phase

end Tracking

end ScalarLM.Queue
