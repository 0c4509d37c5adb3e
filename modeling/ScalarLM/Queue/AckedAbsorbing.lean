import ScalarLM.Queue.StoreSteps

/-! Whether an acked row stays acked as long as it exists. -/

namespace ScalarLM.Queue

open Transition

section Absorbed

variable {Store R : Type} (queue : AckQueue Store (Item R))

/-- What is acked in the first store is acked in the second, if its row is still there:
no `get` dispatches it, and `get_if_finished` finds it. -/
structure Absorbed (before after : Store) : Prop where
  status : ∀ row ∈ queue.queue before, row.status = .acked →
    ∀ later ∈ queue.queue after, later.id = row.id → later.status = .acked
  dispatched : ∀ row ∈ queue.queue before, row.status = .acked →
    ∀ item, (queue.get after).1 ≠ some (row.id, item)
  available : ∀ row ∈ queue.queue before, row.status = .acked →
    (∃ later ∈ queue.queue after, later.id = row.id) → getIfFinished queue row.id after ≠ none

/-- The claim for a run: between any two of its states, the first one earlier. -/
def AckedAbsorbing (events : List (Event R)) : Prop :=
  ∀ front middle back, events = front ++ (middle ++ back) →
    Absorbed queue (run (step queue) (initial queue) front).store
      (run (step queue) (initial queue) (front ++ middle)).store

/-- No `finish_work` gets a row that is already acked. -/
def GetsUnacked (state : Cluster Store R) : Event R → Prop
  | .finishGet handler => ∀ request rest, state.finishWorks handler = .next (request :: rest) →
      ∀ row ∈ queue.queue state.store, row.id = request.requestId → row.status ≠ .acked
  | _ => True

structure Settled (id : Nat) (store : Store) : Prop where
  issued : id ≤ queue.lastId store
  acked : ∀ row ∈ queue.queue store, row.id = id → row.status = .acked

variable {queue} {id : Nat}

theorem Settled.of_acked {store : Store} (issued : Issued queue store) (row : Row (Item R))
    (member : row ∈ queue.queue store) (acked : row.status = .acked) :
    Settled queue row.id store where
  issued := issued row member
  acked := by
    intro other present same
    rw [queue.unique store other present row member same]
    exact acked

theorem Settled.edits {edit : Row (Item R) → Row (Item R)} {before after : Store}
    (settled : Settled queue id before) (edits : Edits queue.queue queue.lastId edit before after)
    (keeps : ∀ row, (edit row).id = row.id)
    (acked : ∀ row ∈ queue.queue before, row.id = id → row.status = .acked →
      (edit row).status = .acked) : Settled queue id after where
  issued := by
    rw [edits.2]
    exact settled.issued
  acked := by
    intro row member hit
    obtain ⟨old, present, rfl⟩ := (edits.1 row).mp member
    rw [keeps] at hit
    exact acked old present hit (settled.acked old present hit)

theorem Settled.taken {other : Nat} {before after : Store} (settled : Settled queue id before)
    (edits : Edits queue.queue queue.lastId (Row.marked other .unack) before after)
    (free : ∃ row ∈ queue.queue before, row.id = other ∧ row.status ≠ .acked) :
    Settled queue id after := by
  refine settled.edits edits (Row.marked_id _ _) ?_
  intro row member hit acked
  have apart : row.id ≠ other := by
    intro equal
    obtain ⟨taken, present, same, unacked⟩ := free
    rw [queue.unique before taken present row member (same.trans equal.symm)] at unacked
    exact unacked acked
  rw [Row.marked_other other .unack row apart]
  exact acked

/-- A step keeps what is settled, unless it is a `finish_work` that gets it again. -/
theorem Settled.step {state : Cluster Store R} {event : Event R} {after : Store}
    (settled : Settled queue id state.store) (change : StoreStep queue state event after)
    (unacked : GetsUnacked queue state event) : Settled queue id after := by
  cases change with
  | same => exact settled
  | put call item =>
      have newer := queue.put_id item state.store
      constructor
      · rw [queue.put_lastId]
        exact Nat.le_of_lt (Nat.lt_of_le_of_lt settled.issued newer)
      · intro row member hit
        rcases (queue.put_queue item state.store row).mp member with old | rfl
        · exact settled.acked row old hit
        · exact absurd hit (Nat.ne_of_gt (Nat.lt_of_le_of_lt settled.issued newer))
  | get handler other item found =>
      obtain ⟨member, _, edits⟩ := queue.get_some state.store other item found
      exact settled.taken edits ⟨_, member, rfl, by simp⟩
  | getId handler request rest item phase found =>
      obtain ⟨⟨row, member, same, _⟩, edits⟩ := queue.getId_some _ state.store item found
      exact settled.taken edits ⟨row, member, same, unacked request rest phase row member same⟩
  | updateAndAck handler request item rest phase =>
      have updated := settled.edits
        (queue.update_edits request.requestId (finishItem request item) state.store)
        (Row.updated_id _ _) (by
          intro row _ _ acked
          unfold Row.updated
          split
          · exact acked
          · exact acked)
      refine updated.edits (queue.ack_edits request.requestId _) (Row.marked_id _ _) ?_
      intro row _ _ acked
      unfold Row.marked
      split
      · rfl
      · exact acked
  | clearAckedData =>
      constructor
      · rw [queue.clear_lastId]
        exact settled.issued
      · exact fun row member => settled.acked row (queue.clear_queue state.store row member)
  | resumeUnackTasks =>
      refine settled.edits (queue.resume_edits state.store) Row.resumed_id ?_
      intro row _ _ acked
      rw [Row.resumed, if_neg (by simp [acked])]
      exact acked

theorem absorbed_of_settled {before after : Store}
    (settled : ∀ row ∈ queue.queue before, row.status = .acked → Settled queue row.id after) :
    Absorbed queue before after where
  status := fun row member acked => (settled row member acked).acked
  dispatched := by
    intro row member acked item found
    have ready := (queue.get_some after row.id item found).1
    have now := (settled row member acked).acked _ ready rfl
    cases now
  available := by
    intro row member acked there
    obtain ⟨later, present, same⟩ := there
    have now := (settled row member acked).acked later present same
    rw [← same, getIfFinished_of_acked after later present now]
    exact Option.some_ne_none _

theorem getsUnacked_of_absorbed {state : Cluster Store R} {event : Event R}
    (absorbed : Absorbed queue state.store (step queue state event).store) :
    GetsUnacked queue state event := by
  cases event with
  | finishGet handler =>
      intro request rest phase row member hit acked
      obtain ⟨item, found⟩ := HasRow.getId ⟨row, member, hit⟩
      obtain ⟨_, edits⟩ := queue.getId_some request.requestId state.store item found
      have outcome : (step queue state (.finishGet handler)).store =
          (queue.getId request.requestId state.store).2 := by
        rw [step, finishGet_found queue state handler request rest item phase found]
      have now := absorbed.status row member acked (row.marked request.requestId .unack)
        (by rw [outcome]; exact (edits.1 _).mpr ⟨row, member, rfl⟩) (Row.marked_id _ _ _)
      rw [Row.marked_same _ _ row hit] at now
      cases now
  | _ => trivial

variable (queue)

/-- Acked is absorbing in a run exactly if no `finish_work` of it gets an acked row. -/
theorem acked_absorbing_iff (events : List (Event R)) :
    AckedAbsorbing queue events ↔
      AllSteps (step queue) (GetsUnacked queue) (initial queue) events := by
  rw [allSteps_iff_prefixes]
  constructor
  · intro absorbing front event back split
    have one := absorbing front [event] back (by rw [split]; rfl)
    rw [run_snoc] at one
    exact getsUnacked_of_absorbed one
  · intro unacked front middle back split
    apply absorbed_of_settled
    intro row member acked
    have first := Settled.of_acked (run_issued front) row member acked
    rw [run_append]
    refine run_of_invariant _ (fun state => Settled queue row.id state.store) (GetsUnacked queue)
      (fun state event settled now => settled.step (step_storeStep queue state event) now) _ _
      first ?_
    rw [allSteps_iff_prefixes]
    intro inner event rest inside
    have here := unacked (front ++ inner) event (rest ++ back) (by rw [split, inside]; simp)
    rwa [run_append] at here

end Absorbed

/-- A worker's results arrive twice: the second `finish_work` takes the acked row. -/
theorem acked_not_absorbing :
    ¬ ∀ events : List (Event String), AckedAbsorbing (tableQueue (Item String)) events := by
  intro claimed
  let front : List (Event String) := [.submit 0 .generate ["prompt"] (some "model") none,
    .enqueue 0, .startStep 0 0 1, .dequeue 0, .dequeue 0, .receiveWork 0,
    .postResults 0 0 [(some "response", none)], .finishGet 0, .finishUpdate 0,
    .postFinish 1 [⟨1, some "response", none⟩]]
  let final := run (step (tableQueue (Item String))) (initial (tableQueue (Item String))) front
  let row : Row (Item String) := ⟨1, .acked,
    finishItem ⟨1, some "response", none⟩ (generateItem "model" none "prompt")⟩
  have rows : (tableQueue (Item String)).queue final.store = [row] := rfl
  have posted : final.finishWorks 1 = .next [⟨1, some "response", none⟩] := rfl
  have absorbed := claimed (front ++ [.finishGet 1]) front [.finishGet 1] [] (by simp)
  rw [run_snoc] at absorbed
  have unacked : GetsUnacked (tableQueue (Item String)) final (.finishGet 1) :=
    getsUnacked_of_absorbed absorbed
  have member : row ∈ (tableQueue (Item String)).queue final.store := by
    rw [rows]
    exact List.mem_singleton_self _
  exact unacked _ [] posted row member rfl rfl

end ScalarLM.Queue
