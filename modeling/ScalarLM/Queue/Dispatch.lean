import ScalarLM.Queue.StoreSteps

/-! Between two restarts of the server the requests are handed out in the order of their
ids, each at most once. -/

namespace ScalarLM.Queue

open Transition

section HandedOut

variable {Store R : Type} (queue : AckQueue Store (Item R))

/-- The id that a step hands out. -/
def handedOut (state : Cluster Store R) : Event R → List Nat
  | .dequeue handler =>
      match state.getWorks handler with
      | .waiting _ => ((queue.get state.store).1.map Prod.fst).toList
      | .filling (_ + 1) _ => ((queue.get state.store).1.map Prod.fst).toList
      | _ => []
  | _ => []

def dispatches : Cluster Store R → List (Event R) → List Nat
  | _, [] => []
  | state, event :: rest => handedOut queue state event ++ dispatches (step queue state event) rest

/-- The server goes on running. -/
def NoRestart (events : List (Event R)) : Prop := ∀ event ∈ events, event ≠ .restartServer

variable {queue} {state : Cluster Store R}

theorem handedOut_asks (handler : Nat) (asks : (state.getWorks handler).Asks) :
    handedOut queue state (.dequeue handler) = ((queue.get state.store).1.map Prod.fst).toList := by
  cases phase : state.getWorks handler with
  | waiting => simp only [handedOut, phase]
  | filling left requests =>
      cases left with
      | zero =>
          rw [phase] at asks
          exact asks.elim
      | succ left => simp only [handedOut, phase]
  | unstarted | replied | failed =>
      rw [phase] at asks
      exact asks.elim

theorem handedOut_idle (handler : Nat) (idle : ¬ (state.getWorks handler).Asks) :
    handedOut queue state (.dequeue handler) = [] := by
  cases phase : state.getWorks handler with
  | waiting =>
      rw [phase] at idle
      exact absurd trivial idle
  | filling left requests =>
      cases left with
      | zero => simp only [handedOut, phase]
      | succ left =>
          rw [phase] at idle
          exact absurd trivial idle
  | unstarted | replied | failed => simp only [handedOut, phase]

end HandedOut

section Ready

variable {Store R : Type} (queue : AckQueue Store (Item R))

structure ReadyAbove (id : Nat) (store : Store) : Prop where
  issued : id ≤ queue.lastId store
  ready : ∀ row ∈ queue.queue store, row.status = .ready → id < row.id

variable {queue} {id : Nat}

theorem ReadyAbove.edits {edit : Row (Item R) → Row (Item R)} {before after : Store}
    (above : ReadyAbove queue id before)
    (edits : Edits queue.queue queue.lastId edit before after)
    (keeps : ∀ row, (edit row).id = row.id)
    (unready : ∀ row, (edit row).status = .ready → row.status = .ready) :
    ReadyAbove queue id after where
  issued := by
    rw [edits.2]
    exact above.issued
  ready := by
    intro row member status
    obtain ⟨old, present, rfl⟩ := (edits.1 row).mp member
    rw [keeps]
    exact above.ready old present (unready old status)

theorem Row.ready_of_marked (other : Nat) (status : AckStatus) (taken : status ≠ .ready)
    (row : Row (Item R)) (ready : (row.marked other status).status = .ready) :
    row.status = .ready := by
  unfold Row.marked at ready
  split at ready
  · exact absurd ready taken
  · exact ready

theorem Row.ready_of_updated (other : Nat) (item : Item R) (row : Row (Item R))
    (ready : (row.updated other item).status = .ready) : row.status = .ready := by
  unfold Row.updated at ready
  split at ready
  · exact ready
  · exact ready

/-- Only a put makes a row ready, and its id is new. -/
theorem ReadyAbove.step {state : Cluster Store R} {event : Event R} {after : Store}
    (above : ReadyAbove queue id state.store) (change : StoreStep queue state event after)
    (running : event ≠ .restartServer) : ReadyAbove queue id after := by
  cases change with
  | same => exact above
  | put call item =>
      have newer := queue.put_id item state.store
      have last := Nat.lt_of_le_of_lt above.issued newer
      constructor
      · rw [queue.put_lastId]
        exact Nat.le_of_lt last
      · intro row member status
        rcases (queue.put_queue item state.store row).mp member with old | rfl
        · exact above.ready row old status
        · exact last
  | get handler other item found =>
      exact above.edits (queue.get_some state.store other item found).2.2 (Row.marked_id _ _)
        (Row.ready_of_marked other .unack (by simp))
  | getId handler request rest item phase found =>
      exact above.edits (queue.getId_some _ state.store item found).2 (Row.marked_id _ _)
        (Row.ready_of_marked _ .unack (by simp))
  | updateAndAck handler request item rest phase =>
      have updated := above.edits
        (queue.update_edits request.requestId (finishItem request item) state.store)
        (Row.updated_id _ _) (Row.ready_of_updated _ _)
      exact updated.edits (queue.ack_edits request.requestId _) (Row.marked_id _ _)
        (Row.ready_of_marked _ .acked (by simp))
  | clearAckedData =>
      constructor
      · rw [queue.clear_lastId]
        exact above.issued
      · exact fun row member => above.ready row (queue.clear_queue state.store row member)
  | resumeUnackTasks => exact absurd rfl running

theorem readyAbove_handedOut {state : Cluster Store R} {event : Event R}
    (issued : Issued queue state.store) (given : id ∈ handedOut queue state event) :
    (∃ row ∈ queue.queue state.store, row.id = id ∧ row.status = .ready) ∧
      ReadyAbove queue id (step queue state event).store ∧ handedOut queue state event = [id] := by
  cases event with
  | dequeue handler =>
      rcases dequeue_cases queue state handler with
        ⟨other, item, phase, asks, found, outcome, _⟩ | ⟨empty, phase, outcome, _⟩
      · have single : handedOut queue state (.dequeue handler) = [other] := by
          rw [handedOut_asks handler asks, found]
          rfl
        rw [single] at given ⊢
        obtain rfl := List.mem_singleton.mp given
        obtain ⟨member, least, edits⟩ := queue.get_some state.store id item found
        refine ⟨⟨_, member, rfl, rfl⟩, ?_, rfl⟩
        rw [step, outcome]
        constructor
        · rw [edits.2]
          exact issued _ member
        · intro row present status
          obtain ⟨old, before, rfl⟩ := (edits.1 row).mp present
          have ready := Row.ready_of_marked id .unack (by simp) old status
          rw [Row.marked_id]
          refine Nat.lt_of_le_of_ne (least old before ready) ?_
          intro same
          rw [Row.marked_same id .unack old same.symm] at status
          cases status
      · by_cases asks : (state.getWorks handler).Asks
        · rw [handedOut_asks handler asks, empty asks] at given
          exact absurd given List.not_mem_nil
        · rw [handedOut_idle handler asks] at given
          exact absurd given List.not_mem_nil
  | _ => exact absurd given List.not_mem_nil

end Ready

section Sessions

variable {Store R : Type} {queue : AckQueue Store (Item R)}

theorem dispatches_above {id : Nat} (events : List (Event R)) (state : Cluster Store R)
    (issued : Issued queue state.store) (above : ReadyAbove queue id state.store)
    (running : NoRestart events) : ∀ other ∈ dispatches queue state events, id < other := by
  induction events generalizing state with
  | nil => exact List.forall_mem_nil _
  | cons event rest ih =>
      have change := step_storeStep queue state event
      have now := running event List.mem_cons_self
      intro other given
      rcases List.mem_append.mp given with first | later
      · obtain ⟨⟨row, member, rfl, ready⟩, _⟩ := readyAbove_handedOut issued first
        exact above.ready row member ready
      · exact ih _ (issued.step change) (above.step change now)
          (fun later member => running later (List.mem_cons_of_mem _ member)) other later

theorem dispatches_increasing (events : List (Event R)) (state : Cluster Store R)
    (issued : Issued queue state.store) (running : NoRestart events) :
    (dispatches queue state events).Pairwise (· < ·) := by
  induction events generalizing state with
  | nil => exact List.Pairwise.nil
  | cons event rest ih =>
      have later := issued.step (step_storeStep queue state event)
      have others : NoRestart rest := fun other member =>
        running other (List.mem_cons_of_mem _ member)
      rw [dispatches, List.pairwise_append]
      refine ⟨?_, ih _ later others, ?_⟩
      · cases first : handedOut queue state event with
        | nil => exact List.Pairwise.nil
        | cons id ids =>
            have given : id ∈ handedOut queue state event := by
              rw [first]
              exact List.mem_cons_self
            rw [← first, (readyAbove_handedOut issued given).2.2]
            exact List.pairwise_singleton _ _
      · intro id given
        exact dispatches_above rest _ later (readyAbove_handedOut issued given).2.1 others

variable (queue)

/-- After any history, a session without a restart hands out increasing ids, none twice. -/
theorem dispatch_in_order (history session : List (Event R)) (running : NoRestart session) :
    (dispatches queue (run (step queue) (initial queue) history) session).Pairwise (· < ·) ∧
      (dispatches queue (run (step queue) (initial queue) history) session).Nodup := by
  have increasing := dispatches_increasing session (run (step queue) (initial queue) history)
    (run_issued history) running
  exact ⟨increasing, increasing.imp Nat.ne_of_lt⟩

end Sessions

def restartedHistory : List (Event String) := [
  .submit 0 .generate ["first", "second"] (some "model") none, .enqueue 0, .enqueue 0,
  .startStep 0 0 1, .dequeue 0, .restartServer]

def mixedSession : List (Event String) := [
  .startStep 1 1 2, .startStep 2 2 1, .dequeue 1, .dequeue 2,
  .submit 1 .embed ["third"] (some "model") none, .enqueue 1,
  .postFinish 0 [⟨1, some "response", none⟩, ⟨1, some "response", none⟩],
  .finishGet 0, .finishUpdate 0, .finishGet 0, .finishUpdate 0, .clearAcked, .dequeue 1]

theorem mixed_dispatched_in_order :
    (dispatches (tableQueue (Item String)) (run (step (tableQueue (Item String)))
        (initial (tableQueue (Item String))) restartedHistory) mixedSession).Pairwise (· < ·) ∧
      (dispatches (tableQueue (Item String)) (run (step (tableQueue (Item String)))
        (initial (tableQueue (Item String))) restartedHistory) mixedSession).Nodup :=
  dispatch_in_order (tableQueue (Item String)) restartedHistory mixedSession
    (by simp [NoRestart, mixedSession])

end ScalarLM.Queue
