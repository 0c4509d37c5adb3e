import Mathlib.Order.Interval.Finset.Nat
import ScalarLM.Queue.CallSteps
import ScalarLM.Queue.Tracking

/-! Whether a finished request's result is there for the polls of its client until one of
them has returned it. -/

namespace ScalarLM.Queue

open Transition

/-- A run of the service with what its polls owe and have returned. -/
structure Watched (Store R : Type) where
  cluster : Cluster Store R
  /-- The ids whose results some poll has returned. -/
  delivered : List Nat
  /-- The ids of a call's running poll that were finished when it started. -/
  due : Nat → List Nat
  /-- Whether a call's running poll has begun a pass over its ids. -/
  begun : Nat → Bool

section Watching

variable {Store R : Type} (queue : AckQueue Store (Item R))

def pollReturns (state : Cluster Store R) : Event R → Option (Nat × Poll R)
  | .pollPass number timedOut =>
      match (state.calls number).poll with
      | some poll =>
          if poll.pending = [] ∧ poll.again timedOut = false then some (number, poll) else none
      | none => none
  | _ => none

def nowDelivered (state : Cluster Store R) (event : Event R) : List Nat :=
  match pollReturns state event with
  | some (_, poll) => poll.responsesSoFar
  | none => []

def dueAtStart (state after : Cluster Store R) (number : Nat) : List Nat :=
  match (after.calls number).poll with
  | some poll => poll.requestIds.filter (· ∈ state.acked)
  | none => []

def watch (watched : Watched Store R) (event : Event R) : Watched Store R where
  cluster := step queue watched.cluster event
  delivered := watched.delivered ++ nowDelivered watched.cluster event
  due :=
    match pollStarts watched.cluster event with
    | some number => Function.update watched.due number
        (dueAtStart watched.cluster (step queue watched.cluster event) number)
    | none => watched.due
  begun :=
    match pollStarts watched.cluster event, event with
    | some number, _ => Function.update watched.begun number false
    | none, .pollPass number _ => Function.update watched.begun number true
    | none, _ => watched.begun

def initialWatch : Watched Store R where
  cluster := initial queue
  delivered := []
  due := fun _ => []
  begun := fun _ => false

/-- Finished, not yet returned by a poll, and the client still polls for it. -/
def Awaited (watched : Watched Store R) (id : Nat) : Prop :=
  id ∈ watched.cluster.acked ∧ id ∉ watched.delivered ∧
    ∃ number, id ∈ (watched.cluster.calls number).requestIds ∧
      (watched.cluster.calls number).Awaits

/-- The awaited results can be found. -/
def Retrievable (watched : Watched Store R) : Prop :=
  ∀ id, Awaited watched id → ∃ item, getIfFinished queue id watched.cluster.store = some item

/-- What was finished when a poll started is among its results when it returns, unless
another poll has returned it or the client is gone. -/
def ReturnsDue (watched : Watched Store R) (event : Event R) : Prop :=
  ∀ number poll, pollReturns watched.cluster event = some (number, poll) →
    (watched.cluster.calls number).client = .waiting →
    ∀ id ∈ watched.due number, id ∉ watched.delivered → id ∈ poll.responsesSoFar

/-- A run of the clear task has no awaited row in its window, and no `finish_work` gets
an awaited row that is acked already. -/
def LeavesAwaited (watched : Watched Store R) : Event R → Prop
  | .clearAcked => ∀ id ∈ ackedIds (queue.queue watched.cluster.store), Awaited watched id →
      ¬ InWindow (queue.queue watched.cluster.store) id
  | .finishGet handler => ∀ request rest,
      watched.cluster.finishWorks handler = .next (request :: rest) →
      request.requestId ∈ ackedIds (queue.queue watched.cluster.store) →
      ¬ Awaited watched request.requestId
  | _ => True

/-- No poll times out before its first pass. -/
def PassesFirst (watched : Watched Store R) : Event R → Prop
  | .pollPass number true => watched.begun number = true
  | _ => True

end Watching

section Retrieval

variable {Store R : Type} {queue : AckQueue Store (Item R)}

theorem CallStep.awaits {state : Cluster Store R} {number id : Nat} {event : Event R}
    {call : Call R} (change : CallStep queue state number event call)
    (member : id ∈ call.requestIds) (awaits : call.Awaits) :
    (id ∈ (state.calls number).requestIds ∧ (state.calls number).Awaits) ∨
      queue.lastId state.store < id := by
  cases change with
  | same => exact Or.inl ⟨member, awaits⟩
  | submit requestType prompts model maxTokens call ids =>
      rw [ids] at member
      exact absurd member List.not_mem_nil
  | put item rest =>
      rcases List.mem_append.mp member with old | new
      · exact Or.inl ⟨old, awaits⟩
      · rw [List.mem_singleton.mp new]
        exact Or.inr (queue.put_id item state.store)
  | start phase => exact Or.inl ⟨member, awaits⟩
  | pass => exact Or.inl ⟨member, awaits⟩
  | next => exact Or.inl ⟨member, awaits⟩
  | stop => exact Or.inl ⟨member, awaits⟩
  | receive results waiting => exact Or.inl ⟨member, Or.inl waiting⟩
  | again results received => exact Or.inl ⟨member, Or.inr ⟨results, received⟩⟩
  | leave event client quiet left =>
      rcases awaits with waiting | ⟨results, received⟩
      · exact absurd waiting left.1
      · exact absurd received (left.2 results)

variable {watched : Watched Store R}

theorem awaited_of_step (tracked : Tracked queue watched.cluster) (event : Event R) (id : Nat)
    (awaited : Awaited (watch queue watched event) id) :
    Awaited watched id ∨ ∃ handler request item rest, event = .finishUpdate handler ∧
      watched.cluster.finishWorks handler = .fetched request item rest ∧
        request.requestId = id ∧ id ∉ watched.cluster.acked := by
  obtain ⟨acked, undelivered, number, member, awaits⟩ := awaited
  have before : id ∉ watched.delivered :=
    fun delivered => undelivered (List.mem_append_left _ delivered)
  by_cases old : id ∈ watched.cluster.acked
  · rcases (step_callStep queue watched.cluster number event).awaits member awaits with
      same | new
    · exact Or.inl ⟨old, before, number, same⟩
    · exact absurd (tracked.acked id old) (Nat.not_le_of_lt new)
  · rcases step_acked queue watched.cluster event with
      same | ⟨handler, request, item, rest, about, phase, grown⟩
    · change id ∈ (step queue watched.cluster event).acked at acked
      rw [same] at acked
      exact absurd acked old
    · change id ∈ (step queue watched.cluster event).acked at acked
      rw [grown] at acked
      rcases List.mem_append.mp acked with present | new
      · exact absurd present old
      · exact Or.inr ⟨handler, request, item, rest, about, phase, (List.mem_singleton.mp new).symm,
          old⟩

theorem Awaited.of_same {after : Watched Store R} {id : Nat} (awaited : Awaited watched id)
    (acked : after.cluster.acked = watched.cluster.acked)
    (calls : after.cluster.calls = watched.cluster.calls)
    (delivered : after.delivered = watched.delivered) : Awaited after id := by
  unfold Awaited
  rw [acked, calls, delivered]
  exact awaited

end Retrieval

section Exactly

variable {Store R : Type} {queue : RetainingQueue Store (Item R)} {watched : Watched Store R}

variable (queue) in
theorem ackedIds_clear (store : Store) (id : Nat) :
    id ∈ ackedIds (queue.queue (queue.clearAckedData store)) ↔
      id ∈ ackedIds (queue.queue store) ∧ ¬ InWindow (queue.queue store) id := by
  simp only [mem_ackedIds]
  constructor
  · intro given
    rcases given with ⟨row, member, rfl, acked⟩
    have before := queue.clear_queue store row member
    exact ⟨⟨row, before, rfl, acked⟩, (queue.clear_acked store row before acked).mp member⟩
  · intro given
    rcases given with ⟨⟨row, member, rfl, acked⟩, outside⟩
    exact ⟨row, (queue.clear_acked store row member acked).mpr outside, rfl, acked⟩

/-- A step keeps the awaited results retrievable exactly if it leaves them alone. -/
theorem retrievable_step (tracked : Tracked queue.toAckQueue watched.cluster)
    (retrievable : Retrievable queue.toAckQueue watched) (event : Event R) :
    Retrievable queue.toAckQueue (watch queue.toAckQueue watched event) ↔
      LeavesAwaited queue.toAckQueue watched event := by
  constructor
  · intro kept
    cases event with
    | clearAcked =>
        intro id present awaited inside
        have after : Awaited (watch queue.toAckQueue watched .clearAcked) id :=
          awaited.of_same rfl rfl (List.append_nil _)
        have found := (getIfFinished_iff _ id).mp (kept id after)
        exact ((ackedIds_clear queue _ id).mp found).2 inside
    | finishGet handler =>
        intro request rest phase present awaited
        obtain ⟨row, member, same, _⟩ := (mem_ackedIds _ _).mp present
        obtain ⟨item, found⟩ := HasRow.getId ⟨row, member, same⟩
        have outcome := finishGet_found queue.toAckQueue watched.cluster handler request rest item
          phase found
        have after : Awaited (watch queue.toAckQueue watched (.finishGet handler))
            request.requestId := by
          refine awaited.of_same ?_ ?_ (List.append_nil _)
          · change (finishGet queue.toAckQueue watched.cluster handler).acked = _
            rw [outcome]
          · change (finishGet queue.toAckQueue watched.cluster handler).calls = _
            rw [outcome]
        have now : request.requestId ∈ ackedIds (queue.queue
            (finishGet queue.toAckQueue watched.cluster handler).store) :=
          (getIfFinished_iff _ _).mp (kept _ after)
        rw [outcome] at now
        exact not_mem_ackedIds (queue.getId_some _ _ item found).2 now
    | _ => trivial
  · intro allowed id awaited
    refine (getIfFinished_iff _ id).mpr ?_
    have change := step_storeStep queue.toAckQueue watched.cluster event
    rcases awaited_of_step tracked event id awaited with
      before | ⟨handler, request, item, rest, rfl, phase, rfl, fresh⟩
    · have present := (getIfFinished_iff _ id).mp (retrievable id before)
      refine ackedIds_step change present ?_ ?_
      · intro handler request rest about phase same
        subst about
        subst same
        exact allowed request rest phase present before
      · intro about
        subst about
        exact (ackedIds_clear queue _ id).mpr ⟨present, allowed id present before⟩
    · have row := (tracked.fetched handler request item rest phase).2.resolve_left fresh
      change request.requestId ∈ ackedIds (queue.queue
        (finishUpdate queue.toAckQueue watched.cluster handler).store)
      rw [finishUpdate, phase]
      exact ackedIds_updateAndAck _ _ _ row

end Exactly

section Polls

variable {Store R : Type} {queue : AckQueue Store (Item R)} {watched : Watched Store R}

structure PollKeeps (watched : Watched Store R) (number : Nat) (poll : Poll R) : Prop where
  unbegun : watched.begun number = false → poll.pending = [] ∧ poll.results = []
  finished : ∀ id ∈ watched.due number, id ∈ watched.cluster.acked ∧ id ∈ poll.requestIds
  ahead : watched.begun number = true → ∀ id ∈ watched.due number, id ∉ watched.delivered →
    id ∈ poll.responsesSoFar ∨ id ∈ poll.pending

def PollsKeep (watched : Watched Store R) : Prop :=
  ∀ number poll, (watched.cluster.calls number).poll = some poll →
    (watched.cluster.calls number).client = .waiting → PollKeeps watched number poll

variable (queue) in
theorem watch_due (event : Event R) (number : Nat)
    (quiet : pollStarts watched.cluster event ≠ some number) :
    (watch queue watched event).due number = watched.due number := by
  cases starts : pollStarts watched.cluster event with
  | none => simp only [watch, starts]
  | some other =>
      simp only [watch, starts]
      exact Function.update_of_ne (fun same => quiet (by rw [starts, same])) _ _

variable (queue) in
theorem watch_begun (event : Event R) (number : Nat)
    (quiet : pollStarts watched.cluster event ≠ some number) :
    (watch queue watched event).begun number = watched.begun number ∨
      (watch queue watched event).begun number = true ∧
        ∃ timedOut, event = .pollPass number timedOut := by
  cases starts : pollStarts watched.cluster event with
  | some other =>
      simp only [watch, starts]
      exact Or.inl (Function.update_of_ne (fun same => quiet (by rw [starts, same])) _ _)
  | none =>
      cases event with
      | pollPass other timedOut =>
          simp only [watch, starts]
          by_cases hit : number = other
          · subst hit
            exact Or.inr ⟨Function.update_self _ _ _, timedOut, rfl⟩
          · exact Or.inl (Function.update_of_ne hit _ _)
      | _ => exact Or.inl (by simp only [watch, starts])

theorem pollKeeps_start (event : Event R) (number : Nat) (requestIds : List Nat)
    (starts : pollStarts watched.cluster event = some number)
    (started : ((step queue watched.cluster event).calls number).poll =
      some (.start requestIds)) :
    PollKeeps (watch queue watched event) number (.start requestIds) := by
  have begun : (watch queue watched event).begun number = false := by
    simp only [watch, starts]
    exact Function.update_self _ _ _
  constructor
  · exact fun _ => ⟨rfl, rfl⟩
  · intro id member
    simp only [watch, starts] at member
    rw [Function.update_self, dueAtStart, started] at member
    have both := List.mem_filter.mp member
    exact ⟨mem_acked_step event (of_decide_eq_true both.2), both.1⟩
  · intro now
    rw [begun] at now
    cases now

theorem Poll.next_ahead (poll : Poll R) (lookup : Nat → Option (Item R)) (id : Nat)
    (present : ∃ item, lookup id = some item)
    (ahead : id ∈ poll.responsesSoFar ∨ id ∈ poll.pending) :
    id ∈ (poll.next lookup).responsesSoFar ∨ id ∈ (poll.next lookup).pending := by
  unfold Poll.next
  split
  · exact ahead
  · rename_i head rest pending
    rw [pending] at ahead
    have later (apart : id ≠ head) : id ∈ poll.responsesSoFar ∨ id ∈ rest :=
      ahead.imp_right fun member => (List.mem_cons.mp member).resolve_left apart
    split
    · rename_i seen
      by_cases same : id = head
      · exact Or.inl (same ▸ seen)
      · exact later same
    · split
      · rename_i missing
        refine later fun same => ?_
        obtain ⟨item, found⟩ := present
        rw [same, missing] at found
        cases found
      · rename_i item found
        by_cases same : id = head
        · refine Or.inl ?_
          rw [Poll.responsesSoFar, List.map_append, same]
          exact List.mem_append_right _ List.mem_cons_self
        · refine (later same).imp_left fun seen => ?_
          rw [Poll.responsesSoFar, List.map_append]
          exact List.mem_append_left _ seen

theorem PollKeeps.mono {number : Nat} {poll : Poll R} {after : Watched Store R}
    (keeps : PollKeeps watched number poll) (due : after.due number = watched.due number)
    (begun : after.begun number = watched.begun number)
    (acked : ∀ id ∈ watched.cluster.acked, id ∈ after.cluster.acked)
    (delivered : ∀ id ∈ watched.delivered, id ∈ after.delivered) :
    PollKeeps after number poll where
  unbegun := by
    rw [begun]
    exact keeps.unbegun
  finished := by
    rw [due]
    exact fun id member => (keeps.finished id member).imp_left (acked id)
  ahead := by
    rw [due, begun]
    exact fun now id member undelivered =>
      keeps.ahead now id member fun given => undelivered (delivered id given)

theorem poll_requestIds (tracked : Tracked queue watched.cluster) (number : Nat) (poll : Poll R)
    (running : (watched.cluster.calls number).poll = some poll) :
    poll.requestIds = (watched.cluster.calls number).requestIds := by
  have handler := (tracked.sound.calls number).handler
  unfold Call.poll at running
  split at running
  · rename_i current answers phase
    rw [phase] at handler
    rw [← Option.some.inj running]
    exact handler.2.1.asked
  · cases running

theorem pollsKeep_step (tracked : Tracked queue watched.cluster)
    (retrievable : Retrievable queue watched) (keeps : PollsKeep watched) (event : Event R) :
    PollsKeep (watch queue watched event) := by
  intro number poll running waiting
  have acked : ∀ id ∈ watched.cluster.acked, id ∈ (watch queue watched event).cluster.acked :=
    fun _ member => mem_acked_step event member
  have delivered : ∀ id ∈ watched.delivered, id ∈ (watch queue watched event).delivered :=
    fun _ member => List.mem_append_left _ member
  have change := step_callStep queue watched.cluster number event
  change ((step queue watched.cluster event).calls number).poll = some poll at running
  change ((step queue watched.cluster event).calls number).client = .waiting at waiting
  generalize after : (step queue watched.cluster event).calls number = call
    at change running waiting
  cases change with
  | same _ quiet busy =>
      have kept := keeps number poll running waiting
      rcases watch_begun queue event number quiet with begun | ⟨begun, timedOut, passes⟩
      · exact kept.mono (watch_due queue event number quiet) begun acked delivered
      · -- in the middle of a pass the poll has begun one
        have already : watched.begun number = true := by
          cases unbegun : watched.begun number with
          | true => rfl
          | false => exact absurd (kept.unbegun unbegun).1 (busy timedOut poll passes running)
        exact kept.mono (watch_due queue event number quiet) (begun.trans already.symm) acked
          delivered
  | submit requestType prompts model maxTokens call ids idle =>
      rw [idle] at running
      cases running
  | put item rest => cases running
  | start phase =>
      obtain rfl := Option.some.inj running
      exact pollKeeps_start _ number _ (by simp only [pollStarts, phase]) (by rw [after]; rfl)
  | pass current answers timedOut phase ended again =>
      obtain rfl := Option.some.inj running
      have kept := keeps number current (by rw [Call.poll, phase]) waiting
      have begun : (watch queue watched (.pollPass number timedOut)).begun number = true :=
        Function.update_self _ _ _
      constructor
      · intro unbegun
        rw [begun] at unbegun
        cases unbegun
      · exact fun id member => (kept.finished id member).imp_left (acked id)
      · exact fun _ id member _ => Or.inr (kept.finished id member).2
  | next current answers phase =>
      obtain rfl := Option.some.inj running
      have before : (watched.cluster.calls number).poll = some current := by
        rw [Call.poll, phase]
      have kept := keeps number current before waiting
      have asked : (current.next fun id =>
          getIfFinished queue id watched.cluster.store).requestIds = current.requestIds := by
        unfold Poll.next
        split
        · rfl
        · split
          · rfl
          · split <;> rfl
      constructor
      · intro unbegun
        have idle := kept.unbegun unbegun
        rw [Poll.next, idle.1]
        exact idle
      · intro id member
        rw [asked]
        exact (kept.finished id member).imp_left (acked id)
      · intro begun id member undelivered
        have waits : id ∉ watched.delivered := fun given => undelivered (delivered id given)
        have here := kept.finished id member
        refine Poll.next_ahead current _ id (retrievable id ?_) (kept.ahead begun id member waits)
        refine ⟨here.1, waits, number, ?_, Or.inl waiting⟩
        rw [← poll_requestIds tracked number current before]
        exact here.2
  | stop _ handler stopped =>
      cases handler with
      | polling current answers => exact absurd rfl (stopped current answers)
      | _ => cases running
  | receive results before replied => cases waiting
  | again results received unfinished =>
      obtain rfl := Option.some.inj running
      refine pollKeeps_start _ number _ ?_ (by rw [after]; rfl)
      simp only [pollStarts, received, unfinished, if_true]
  | leave _ client quiet left => exact absurd waiting left.1

/-- A poll that returns has what is due. -/
theorem returnsDue (keeps : PollsKeep watched) (event : Event R)
    (passes : PassesFirst watched event) : ReturnsDue watched event := by
  intro number poll returned waiting id due undelivered
  cases event with
  | pollPass other timedOut =>
      simp only [pollReturns] at returned
      split at returned
      · rename_i current running
        split at returned
        · rename_i ended
          obtain ⟨rfl, rfl⟩ := Prod.mk.inj (Option.some.inj returned)
          have kept := keeps other current running waiting
          have begun : watched.begun other = true := by
            cases unbegun : watched.begun other with
            | true => rfl
            | false =>
                -- a poll that has found nothing stops only when its time is over
                have some_asked := List.length_pos_of_mem (kept.finished id due).2
                have stops := ended.2
                rw [Poll.again, (kept.unbegun unbegun).2] at stops
                cases timedOut with
                | true =>
                    rw [← unbegun]
                    exact passes
                | false => simp [Nat.pos_iff_ne_zero.mp some_asked] at stops
          rcases kept.ahead begun id due undelivered with found | pending
          · exact found
          · rw [ended.1] at pending
            exact absurd pending List.not_mem_nil
        · cases returned
      · cases returned
  | _ => cases returned

end Polls

section Runs

variable {Store R : Type} (queue : RetainingQueue Store (Item R))

theorem initial_pollsKeep : PollsKeep (initialWatch queue.toAckQueue) :=
  fun _ _ running _ => by cases running

theorem initial_retrievable : Retrievable queue.toAckQueue (initialWatch queue.toAckQueue) :=
  fun _ awaited => absurd awaited.1 List.not_mem_nil

/-- Awaited results are retrievable in every state exactly if no step of the run takes
one away; then every poll that gets to its first pass returns what is due. -/
theorem finished_results_returned (events : List (Event R)) :
    (Always (watch queue.toAckQueue) (Retrievable queue.toAckQueue)
        (initialWatch queue.toAckQueue) events ↔
      AllSteps (watch queue.toAckQueue) (LeavesAwaited queue.toAckQueue)
        (initialWatch queue.toAckQueue) events) ∧
    (AllSteps (watch queue.toAckQueue)
        (fun watched event => LeavesAwaited queue.toAckQueue watched event ∧
          PassesFirst watched event) (initialWatch queue.toAckQueue) events →
      AllSteps (watch queue.toAckQueue) ReturnsDue (initialWatch queue.toAckQueue) events) := by
  have always : ∀ start : Watched Store R,
      AllSteps (watch queue.toAckQueue) (fun _ _ => True) start events :=
    fun start => allSteps_of_forall _ _ (fun _ _ => trivial) start events
  constructor
  · rw [always_iff_allSteps, and_iff_right (initial_retrievable queue)]
    refine allSteps_iff _ (fun watched => Tracked queue.toAckQueue watched.cluster ∧
      Retrievable queue.toAckQueue watched) (fun _ _ => True) _ _ ?_ ?_ _ _
      ⟨initial_tracked, initial_retrievable queue⟩ (always _)
    · intro watched event given _
      exact retrievable_step given.1 given.2 event
    · intro watched event given _ kept
      exact ⟨given.1.step event, kept⟩
  · intro allowed
    refine (allSteps_iff _ (fun watched => Tracked queue.toAckQueue watched.cluster ∧
      Retrievable queue.toAckQueue watched ∧ PollsKeep watched) _ ReturnsDue (fun _ _ => True)
      ?_ ?_ _ _ ⟨initial_tracked, initial_retrievable queue, initial_pollsKeep queue⟩ allowed).mpr
      (always _)
    · intro watched event given now
      exact iff_of_true (returnsDue given.2.2 event now.2) trivial
    · intro watched event given now _
      rcases given with ⟨tracked, retrievable, keeps⟩
      exact ⟨tracked.step event, (retrievable_step tracked retrievable event).mpr now.1,
        pollsKeep_step tracked retrievable keeps event⟩

end Runs

section Overflow

def batchSize : Nat := keepLatest + 1

def supply (id : Nat) : FinishRequest String := ⟨id, some "response", none⟩

def overflow : List (Event String) :=
  [.submit 0 .generate (List.replicate batchSize "prompt") (some "model") none] ++
  (List.replicate batchSize [.enqueue 0]).flatten ++
  [.postFinish 0 ((List.range' 1 batchSize).map supply)] ++
  (List.replicate batchSize [.finishGet 0, .finishUpdate 0]).flatten ++
  [.clearAcked, .enqueue 0, .pollPass 0 false] ++
  (List.replicate batchSize [.pollNext 0]).flatten

structure Accepting (count : Nat) (watched : Watched (Table (Item String)) String) : Prop where
  client : (watched.cluster.calls 0).client = .waiting
  requestIds : (watched.cluster.calls 0).requestIds = List.range' 1 count
  rows : ∀ id, HasRow (retainingTable (Item String)).toAckQueue watched.cluster.store id ↔
    1 ≤ id ∧ id ≤ count
  delivered : watched.delivered = []

structure Enqueuing (count : Nat) (watched : Watched (Table (Item String)) String) : Prop extends
    Accepting count watched where
  handler : (watched.cluster.calls 0).handler =
    .enqueuing (List.replicate (batchSize - count) "prompt")
  lastId : watched.cluster.store.lastId = count
  idle : watched.cluster.finishWorks 0 = .unstarted

structure Finishing (count : Nat) (watched : Watched (Table (Item String)) String) : Prop extends
    Accepting batchSize watched where
  handler : (watched.cluster.calls 0).handler = .enqueuing []
  remaining : watched.cluster.finishWorks 0 =
    .next ((List.range' (count + 1) (batchSize - count)).map supply)
  finished : ∀ id, 1 ≤ id → id ≤ count → id ∈ watched.cluster.acked ∧
    id ∈ ackedIds watched.cluster.store.rows

structure Polling (count : Nat) (watched : Watched (Table (Item String)) String) : Prop where
  client : (watched.cluster.calls 0).client = .waiting
  delivered : watched.delivered = []
  due : 1 ∈ watched.due 0
  cleared : 1 ∉ ackedIds watched.cluster.store.rows
  handler : ∃ poll answers, (watched.cluster.calls 0).handler = .polling poll answers ∧
    poll.pending = List.range' (count + 1) (batchSize - count) ∧ 1 ∉ poll.responsesSoFar

theorem enqueuing_next (count : Nat) (watched : Watched (Table (Item String)) String)
    (below : count < batchSize) (given : Enqueuing count watched) :
    Enqueuing (count + 1) (run (watch (retainingTable (Item String)).toAckQueue) watched
      [.enqueue 0]) := by
  have phase := given.handler
  have more : batchSize - count = batchSize - (count + 1) + 1 := by omega
  rw [more, List.replicate_succ] at phase
  let queue := (retainingTable (Item String)).toAckQueue
  let item := (watched.cluster.calls 0).item "prompt"
  let after := enqueue queue watched.cluster 0
  have fresh : (queue.put item watched.cluster.store).1 = count + 1 := by
    rw [← given.lastId]
    rfl
  have call : after.calls 0 = { watched.cluster.calls 0 with
      handler := .enqueuing (List.replicate (batchSize - (count + 1)) "prompt")
      requestIds := (watched.cluster.calls 0).requestIds ++ [count + 1] } := by
    simp only [after, enqueue, phase]
    rw [Function.update_self, ← fresh]
  have store : after.store = (queue.put item watched.cluster.store).2 := by
    simp only [after, enqueue, phase]
    rfl
  have idle : after.finishWorks = watched.cluster.finishWorks := by
    simp only [after, enqueue, phase]
  constructor
  · constructor
    · change (after.calls 0).client = _
      rw [call]
      exact given.client
    · change (after.calls 0).requestIds = _
      rw [call, List.range'_1_concat, given.requestIds, Nat.add_comm 1 count]
    · intro id
      change HasRow queue after.store id ↔ _
      rw [store]
      constructor
      · intro present
        obtain ⟨row, member, rfl⟩ := present
        rcases (queue.put_queue item watched.cluster.store row).mp member with old | rfl
        · have range := (given.rows row.id).mp ⟨row, old, rfl⟩
          exact ⟨range.1, Nat.le_succ_of_le range.2⟩
        · rw [fresh]
          exact ⟨Nat.succ_le_succ (Nat.zero_le _), Nat.le_refl _⟩
      · intro range
        by_cases last : id = count + 1
        · rw [last, ← fresh]
          exact ⟨_, (queue.put_queue item _ _).mpr (Or.inr rfl), rfl⟩
        · exact ((given.rows id).mpr ⟨range.1, by omega⟩).put item
    · change watched.delivered ++ [] = []
      rw [given.delivered]
      rfl
  · change (after.calls 0).handler = _
    rw [call]
  · change after.store.lastId = _
    rw [store, ← fresh]
    rfl
  · change after.finishWorks 0 = _
    rw [idle]
    exact given.idle

theorem finishing_first (watched : Watched (Table (Item String)) String)
    (given : Enqueuing batchSize watched) :
    Finishing 0 (run (watch (retainingTable (Item String)).toAckQueue) watched
      [.postFinish 0 ((List.range' 1 batchSize).map supply)]) := by
  let after := postFinish watched.cluster 0 ((List.range' 1 batchSize).map supply)
  have posted : after = { watched.cluster with
      finishWorks := Function.update watched.cluster.finishWorks 0
        (.next ((List.range' 1 batchSize).map supply))
      posted := watched.cluster.posted ++ (List.range' 1 batchSize).map supply } := by
    simp only [after, postFinish, given.idle]
  constructor
  · constructor
    · change (after.calls 0).client = _
      rw [posted]
      exact given.client
    · change (after.calls 0).requestIds = _
      rw [posted]
      exact given.requestIds
    · intro id
      change HasRow _ after.store id ↔ _
      rw [posted]
      exact given.rows id
    · change watched.delivered ++ [] = []
      rw [given.delivered]
      rfl
  · change (after.calls 0).handler = _
    rw [posted]
    exact given.handler.trans (by rw [Nat.sub_self]; rfl)
  · change after.finishWorks 0 = _
    rw [posted]
    dsimp only
    rw [Function.update_self]
    rfl
  · intro id positive bound
    omega

theorem finishing_next (count : Nat) (watched : Watched (Table (Item String)) String)
    (below : count < batchSize) (given : Finishing count watched) :
    Finishing (count + 1) (run (watch (retainingTable (Item String)).toAckQueue) watched
      [.finishGet 0, .finishUpdate 0]) := by
  have phase := given.remaining
  have more : batchSize - count = batchSize - (count + 1) + 1 := by omega
  rw [more, List.range'_succ, List.map_cons] at phase
  let queue := (retainingTable (Item String)).toAckQueue
  let rest := (List.range' (count + 1 + 1) (batchSize - (count + 1))).map supply
  have range : 1 ≤ count + 1 ∧ count + 1 ≤ batchSize := ⟨by omega, below⟩
  obtain ⟨item, found⟩ := HasRow.getId ((given.rows (count + 1)).mpr range)
  have edits := (queue.getId_some _ _ item found).2
  let middle := finishGet queue watched.cluster 0
  have first : middle = { watched.cluster with
      store := (queue.getId (count + 1) watched.cluster.store).2
      finishWorks := Function.update watched.cluster.finishWorks 0
        (.fetched (supply (count + 1)) item rest) } :=
    finishGet_found queue watched.cluster 0 (supply (count + 1)) rest item phase found
  let after := finishUpdate queue middle 0
  have second : after = { watched.cluster with
      store := updateAndAck queue (count + 1) (finishItem (supply (count + 1)) item)
        (queue.getId (count + 1) watched.cluster.store).2
      acked := watched.cluster.acked ++ [count + 1]
      finishWorks := Function.update watched.cluster.finishWorks 0 (.next rest) } := by
    have fetched : middle.finishWorks 0 = .fetched (supply (count + 1)) item rest := by
      rw [first]
      dsimp only
      rw [Function.update_self]
    simp only [after, finishUpdate, fetched]
    rw [first, Function.update_idem]
    rfl
  have acked : ∀ id, 1 ≤ id → id ≤ count + 1 → id ∈ ackedIds (queue.queue after.store) := by
    intro id positive bound
    by_cases last : id = count + 1
    · rw [second, last]
      refine ackedIds_updateAndAck _ _ _ ?_
      exact ((given.rows (count + 1)).mpr range).edits edits (Row.marked_id _ _)
    · have before := (given.finished id positive (by omega)).2
      have kept := ackedIds_step (finishGet_storeStep queue watched.cluster 0) before (by
        intro handler request others about next
        obtain rfl := Event.finishGet.inj about
        rw [phase] at next
        obtain ⟨rfl, _⟩ := List.cons.inj (FinishWork.next.inj next)
        exact fun same => last same.symm) (by simp)
      exact ackedIds_step (finishUpdate_storeStep queue middle 0) kept (by simp) (by simp)
  have delivered : (run (watch queue) watched [.finishGet 0, .finishUpdate 0]).delivered =
      watched.delivered ++ [] ++ [] := rfl
  constructor
  · constructor
    · change (after.calls 0).client = _
      rw [second]
      exact given.client
    · change (after.calls 0).requestIds = _
      rw [second]
      exact given.requestIds
    · intro id
      change HasRow queue after.store id ↔ _
      rw [second, ← given.rows id]
      exact (hasRow_updateAndAck_iff _ _).trans (hasRow_edits_iff edits (Row.marked_id _ _))
    · rw [delivered, given.delivered]
      rfl
  · change (after.calls 0).handler = _
    rw [second]
    exact given.handler
  · change after.finishWorks 0 = _
    rw [second]
    dsimp only
    rw [Function.update_self]
  · intro id positive bound
    refine ⟨?_, acked id positive bound⟩
    change id ∈ after.acked
    rw [second]
    by_cases last : id = count + 1
    · exact List.mem_append_right _ (List.mem_singleton.mpr last)
    · exact List.mem_append_left _ (given.finished id positive (by omega)).1

theorem first_inWindow (watched : Watched (Table (Item String)) String)
    (given : Finishing batchSize watched) : InWindow watched.cluster.store.rows 1 := by
  have newer : (ackedIds watched.cluster.store.rows).filter (1 < ·) =
      Finset.Icc 2 batchSize := by
    ext id
    rw [Finset.mem_filter, Finset.mem_Icc]
    constructor
    · intro both
      obtain ⟨row, member, same, _⟩ := (mem_ackedIds _ _).mp both.1
      exact ⟨both.2, ((given.rows id).mp ⟨row, member, same⟩).2⟩
    · intro range
      exact ⟨(given.finished id (by omega) range.2).2, by omega⟩
  have count : newerAcked watched.cluster.store.rows 1 = keepLatest := by
    rw [newerAcked, newer, Nat.card_Icc]
    rfl
  unfold InWindow
  rw [count]
  decide

theorem polling_first (watched : Watched (Table (Item String)) String)
    (given : Finishing batchSize watched) :
    Polling 0 (run (watch (retainingTable (Item String)).toAckQueue) watched
      [.clearAcked, .enqueue 0, .pollPass 0 false]) := by
  let queue := (retainingTable (Item String)).toAckQueue
  let cleared := watch queue watched .clearAcked
  let started := watch queue cleared (.enqueue 0)
  let begun := watch queue started (.pollPass 0 false)
  let poll : Poll String := .start (List.range' 1 batchSize)
  have phase : (cleared.cluster.calls 0).handler = .enqueuing [] := given.handler
  have call : started.cluster.calls 0 = { watched.cluster.calls 0 with
      handler := .polling poll true } := by
    simp only [started, watch, step, enqueue, phase]
    rw [setCall_self]
    simp only [poll, ← given.requestIds]
    rfl
  have startedStore : started.cluster.store = queue.clearAckedData watched.cluster.store := by
    simp only [started, watch, step, enqueue, phase]
    rfl
  have due : started.due 0 = (List.range' 1 batchSize).filter (· ∈ watched.cluster.acked) := by
    have starts : pollStarts cleared.cluster (.enqueue 0) = some 0 := by
      simp only [pollStarts, phase]
    have running : ((step queue cleared.cluster (.enqueue 0)).calls 0).poll = some poll := by
      change (started.cluster.calls 0).poll = _
      rw [call]
      rfl
    simp only [started, watch, starts]
    rw [Function.update_self, dueAtStart, running]
    rfl
  have again : poll.again false = true := by
    simp [poll, Poll.again, Poll.start, batchSize]
  have pass : begun.cluster.calls 0 = { watched.cluster.calls 0 with
      handler := .polling { poll with pending := poll.requestIds } true } := by
    have ended : poll.pending = [] := rfl
    simp only [begun, watch, step, pollPass, call, ended, again, if_true]
    rw [setCall_self]
  have begunStore : begun.cluster.store = started.cluster.store := by
    have ended : poll.pending = [] := rfl
    simp only [begun, watch, step, pollPass, call, ended]
    rfl
  have returned : pollReturns started.cluster (.pollPass 0 false) = none := by
    have running : (started.cluster.calls 0).poll = some poll := by
      rw [call]
      rfl
    simp only [pollReturns, running, again]
    simp
  constructor
  · change (begun.cluster.calls 0).client = _
    rw [pass]
    exact given.client
  · change watched.delivered ++ [] ++ [] ++ nowDelivered started.cluster (.pollPass 0 false) = []
    rw [nowDelivered, returned, given.delivered]
    rfl
  · change 1 ∈ started.due 0
    rw [due]
    refine List.mem_filter.mpr ⟨List.mem_range'_1.mpr (by decide), decide_eq_true ?_⟩
    exact (given.finished 1 (Nat.le_refl 1) (by decide)).1
  · change 1 ∉ ackedIds begun.cluster.store.rows
    rw [begunStore, startedStore]
    intro present
    exact ((ackedIds_clear (retainingTable (Item String)) watched.cluster.store 1).mp present).2
      (first_inWindow watched given)
  · refine ⟨{ poll with pending := poll.requestIds }, true, ?_, rfl, List.not_mem_nil⟩
    · change (begun.cluster.calls 0).handler = _
      rw [pass]

theorem polling_next (count : Nat) (watched : Watched (Table (Item String)) String)
    (below : count < batchSize) (given : Polling count watched) :
    Polling (count + 1) (run (watch (retainingTable (Item String)).toAckQueue) watched
      [.pollNext 0]) := by
  obtain ⟨poll, answers, phase, pending, unseen⟩ := given.handler
  have more : batchSize - count = batchSize - (count + 1) + 1 := by omega
  rw [more, List.range'_succ] at pending
  let queue := (retainingTable (Item String)).toAckQueue
  let next := poll.next fun id => getIfFinished queue id watched.cluster.store
  have call : (pollNext queue watched.cluster 0).calls 0 = { watched.cluster.calls 0 with
      handler := .polling next answers } := by
    simp only [pollNext, phase]
    exact setCall_self _ _ _
  have store : (pollNext queue watched.cluster 0).store = watched.cluster.store := by
    simp only [pollNext, phase]
    rfl
  constructor
  · change ((pollNext queue watched.cluster 0).calls 0).client = _
    rw [call]
    exact given.client
  · change watched.delivered ++ [] = []
    rw [given.delivered]
    rfl
  · exact given.due
  · change 1 ∉ ackedIds (pollNext queue watched.cluster 0).store.rows
    rw [store]
    exact given.cleared
  · refine ⟨next, answers, ?_, ?_, ?_⟩
    · change ((pollNext queue watched.cluster 0).calls 0).handler = _
      rw [call]
    · simp only [next, Poll.next, pending]
      split
      · rfl
      · split <;> rfl
    · simp only [next, Poll.next, pending]
      split
      · exact unseen
      · split
        · exact unseen
        · rename_i item found
          simp only [Poll.responsesSoFar, List.map_append, List.mem_append, not_or]
          refine ⟨unseen, ?_⟩
          intro hit
          have first : 1 = count + 1 := List.mem_singleton.mp hit
          rw [← first] at found
          exact given.cleared ((getIfFinished_iff _ 1).mp ⟨item, found⟩)

theorem polling_last (watched : Watched (Table (Item String)) String)
    (given : Polling batchSize watched) : ¬ ReturnsDue watched (.pollPass 0 true) := by
  intro returns
  obtain ⟨poll, answers, phase, pending, unseen⟩ := given.handler
  have running : (watched.cluster.calls 0).poll = some poll := by
    rw [Call.poll, phase]
  have ended : poll.pending = [] := by
    rw [pending, Nat.sub_self]
    rfl
  have stops : poll.again true = false := Bool.and_false _
  refine unseen (returns 0 poll ?_ given.client 1 given.due ?_)
  · simp only [pollReturns, running, ended, stops, and_self, if_true]
  · rw [given.delivered]
    exact List.not_mem_nil

theorem overflow_polling :
    Polling batchSize (run (watch (retainingTable (Item String)).toAckQueue)
      (initialWatch (retainingTable (Item String)).toAckQueue) overflow) := by
  unfold overflow
  rw [run_append, run_append, run_append, run_append, run_append]
  refine run_rounds _ Polling _ _ polling_next _ (polling_first _ ?_)
  refine run_rounds _ Finishing _ _ finishing_next _ ?_
  refine finishing_first _ ?_
  refine run_rounds _ Enqueuing _ _ enqueuing_next _ ?_
  constructor
  · constructor
    · rfl
    · rfl
    · intro id
      constructor
      · intro present
        obtain ⟨row, member, _⟩ := present
        exact absurd member List.not_mem_nil
      · omega
    · rfl
  · rfl
  · rfl
  · rfl

/-- The claim fails with a batch of 1001 requests, cleared before their poll starts. -/
theorem results_not_returned :
    ¬ ∀ events : List (Event String),
      AllSteps (watch (retainingTable (Item String)).toAckQueue) ReturnsDue
        (initialWatch (retainingTable (Item String)).toAckQueue) events := by
  intro claimed
  exact polling_last _ overflow_polling
    (allSteps_last _ ReturnsDue _ overflow (.pollPass 0 true) (claimed _))

end Overflow

end ScalarLM.Queue
