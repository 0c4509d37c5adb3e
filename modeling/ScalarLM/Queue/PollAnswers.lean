import Mathlib.Data.List.Dedup
import Mathlib.Data.Nat.Find
import ScalarLM.Queue.FinishBatch
import ScalarLM.Queue.Responses

/-! What the server's `poll_for_responses` answers for a list of ids, whenever their requests
finish and whenever it times out. -/

namespace ScalarLM.Queue

open Transition

section Loop

/-- The queue at each of the looks at it, by the pass and the place in the list of ids, and
whether the check before a pass finds that the time is over. Some day it is. -/
structure PollTiming (Store : Type) where
  store : Nat → Nat → Store
  timedOut : Nat → Bool
  expires : ∃ pass, timedOut pass = true

variable {Store R : Type} (queue : AckQueue Store (Item R)) (timing : PollTiming Store)
  (requestIds : List Nat)

def Poll.within (lookup : Nat → Nat → Option (Item R)) (poll : Poll R) (looks : Nat) : Poll R :=
  (List.range looks).foldl (fun poll index => poll.next (lookup index))
    { poll with pending := poll.requestIds }

def Poll.pass (lookup : Nat → Nat → Option (Item R)) (poll : Poll R) : Poll R :=
  poll.within lookup poll.requestIds.length

def look (pass index id : Nat) : Option (Item R) := getIfFinished queue id (timing.store pass index)

def pollAfter : Nat → Poll R
  | 0 => Poll.start requestIds
  | pass + 1 => (pollAfter pass).pass (look queue timing pass)

theorem poll_stops :
    ∃ pass, (pollAfter queue timing requestIds pass).again (timing.timedOut pass) = false := by
  obtain ⟨pass, expired⟩ := timing.expires
  exact ⟨pass, by rw [Poll.again, expired, Bool.not_true, Bool.and_false]⟩

def passCount : Nat := Nat.find (poll_stops queue timing requestIds)

def pollForResponses : List (Result R) :=
  (pollAfter queue timing requestIds (passCount queue timing requestIds)).finish

/-- A call looks at a request before its time is over. -/
def FinishedInTime (id : Nat) : Prop :=
  ∃ pass index, (∀ earlier ≤ pass, timing.timedOut earlier = false) ∧
    requestIds[index]? = some id ∧ (look queue timing pass index id).isSome = true

def EarlierLook (pass index laterPass laterIndex : Nat) : Prop :=
  pass < laterPass ∨ pass = laterPass ∧ index < laterIndex

/-- An item as it is when a request is found finished for the first time. -/
def FirstFound (pass index id : Nat) (item : Item R) : Prop :=
  requestIds[index]? = some id ∧ look queue timing pass index id = some item ∧
    ∀ earlierPass earlier, EarlierLook earlierPass earlier pass index →
      requestIds[earlier]? = some id → look queue timing earlierPass earlier id = none

/-- One result for each id asked for, in the order of the ids. A request that was found finished
has what is stored, the others have nothing, and when all are found there is no other pass. -/
structure AnswersAsked : Prop where
  asked : ((pollForResponses queue timing requestIds).map Result.requestId).Perm requestIds
  sorted : ((pollForResponses queue timing requestIds).map Result.requestId).Pairwise (· ≤ ·)
  carried : ∀ result ∈ pollForResponses queue timing requestIds,
    (∃ pass index item, pass < passCount queue timing requestIds ∧
      FirstFound queue timing requestIds pass index result.requestId item ∧
        result.response = item.response ∧ result.error = item.error) ∨
    (result.response = none ∧ result.error = none ∧
      ∀ pass index, pass < passCount queue timing requestIds →
        requestIds[index]? = some result.requestId →
          look queue timing pass index result.requestId = none)
  timely : ∀ pass < passCount queue timing requestIds,
    (∀ id ∈ requestIds, ∃ earlier ≤ pass, ∃ index, requestIds[index]? = some id ∧
      (look queue timing earlier index id).isSome = true) →
    passCount queue timing requestIds = pass + 1

end Loop

section Passes

variable {Store R : Type} {queue : AckQueue Store (Item R)} {timing : PollTiming Store}
  {requestIds : List Nat}

structure Collected (queue : AckQueue Store (Item R)) (timing : PollTiming Store)
    (requestIds : List Nat) (pass index : Nat) (poll : Poll R) : Prop where
  valid : PollFor requestIds poll
  found : ∀ result ∈ poll.results, ∃ earlierPass earlier item,
    EarlierLook earlierPass earlier pass index ∧
      FirstFound queue timing requestIds earlierPass earlier result.requestId item ∧
        result.response = item.response ∧ result.error = item.error
  all : ∀ earlierPass earlier id, EarlierLook earlierPass earlier pass index →
    requestIds[earlier]? = some id → (look queue timing earlierPass earlier id).isSome = true →
      id ∈ poll.responsesSoFar

theorem EarlierLook.succ_iff (pass index laterPass laterIndex : Nat) :
    EarlierLook pass index laterPass (laterIndex + 1) ↔
      EarlierLook pass index laterPass laterIndex ∨ (pass = laterPass ∧ index = laterIndex) := by
  unfold EarlierLook
  omega

theorem collected_start :
    Collected queue timing requestIds 0 0 (Poll.start requestIds : Poll R) where
  valid := PollFor.start requestIds
  found := List.forall_mem_nil _
  all := by
    intro earlierPass earlier id before
    unfold EarlierLook at before
    omega

theorem Collected.all_next {pass index id : Nat} {poll later : Poll R}
    (collected : Collected queue timing requestIds pass index poll)
    (here : requestIds[index]? = some id)
    (kept : ∀ other ∈ poll.responsesSoFar, other ∈ later.responsesSoFar)
    (got : (look queue timing pass index id).isSome = true → id ∈ later.responsesSoFar)
    (earlierPass earlier other : Nat) (before : EarlierLook earlierPass earlier pass (index + 1))
    (there : requestIds[earlier]? = some other)
    (found : (look queue timing earlierPass earlier other).isSome = true) :
    other ∈ later.responsesSoFar := by
  rcases (EarlierLook.succ_iff _ _ _ _).mp before with old | ⟨rfl, rfl⟩
  · exact kept other (collected.all earlierPass earlier other old there found)
  · rw [here, Option.some.injEq] at there
    exact there ▸ got (there ▸ found)

theorem Collected.next {pass index id : Nat} {rest : List Nat} {poll : Poll R}
    (collected : Collected queue timing requestIds pass index poll)
    (here : requestIds[index]? = some id) (pending : poll.pending = id :: rest) :
    Collected queue timing requestIds pass (index + 1)
      (poll.next (look queue timing pass index)) ∧
        (poll.next (look queue timing pass index)).pending = rest := by
  have poll' := collected.valid.next (look queue timing pass index)
  have weaken : ∀ result ∈ poll.results, ∃ earlierPass earlier item,
      EarlierLook earlierPass earlier pass (index + 1) ∧
        FirstFound queue timing requestIds earlierPass earlier result.requestId item ∧
          result.response = item.response ∧ result.error = item.error := by
    intro result member
    obtain ⟨earlierPass, earlier, item, before, first⟩ := collected.found result member
    exact ⟨earlierPass, earlier, item, (EarlierLook.succ_iff _ _ _ _).mpr (Or.inl before), first⟩
  unfold Poll.next at poll' ⊢
  rw [pending] at poll' ⊢
  dsimp only at poll' ⊢
  by_cases seen : id ∈ poll.responsesSoFar
  · rw [if_pos seen] at poll' ⊢
    exact ⟨⟨poll', weaken, collected.all_next here (fun _ old => old) fun _ => seen⟩, rfl⟩
  · rw [if_neg seen] at poll' ⊢
    cases found : look queue timing pass index id with
    | none =>
        rw [found] at poll'
        refine ⟨⟨poll', weaken, collected.all_next here (fun _ old => old) ?_⟩, rfl⟩
        intro some
        rw [found] at some
        cases some
    | some item =>
        rw [found] at poll'
        refine ⟨⟨poll', ?_, collected.all_next here ?_ fun _ => ?_⟩, rfl⟩
        · intro result member
          rcases List.mem_append.mp member with old | new
          · exact weaken result old
          · obtain rfl := List.mem_singleton.mp new
            refine ⟨pass, index, item, (EarlierLook.succ_iff _ _ _ _).mpr (Or.inr ⟨rfl, rfl⟩),
              ⟨here, found, ?_⟩, rfl, rfl⟩
            intro earlierPass earlier before there
            by_contra some
            exact seen (collected.all earlierPass earlier id before there
              (Option.isSome_iff_ne_none.mpr some))
        · intro other old
          rw [Poll.responsesSoFar, List.map_append]
          exact List.mem_append_left _ old
        · rw [Poll.responsesSoFar, List.map_append]
          exact List.mem_append_right _ List.mem_cons_self

theorem Collected.within {pass : Nat} {poll : Poll R}
    (collected : Collected queue timing requestIds pass 0 poll) (looks : Nat)
    (few : looks ≤ requestIds.length) :
    Collected queue timing requestIds pass looks (poll.within (look queue timing pass) looks) ∧
      (poll.within (look queue timing pass) looks).pending = requestIds.drop looks := by
  induction looks with
  | zero => exact ⟨⟨collected.valid.again, collected.found, collected.all⟩, collected.valid.asked⟩
  | succ looks ih =>
      obtain ⟨before, pending⟩ := ih (Nat.le_of_succ_le few)
      rw [List.drop_eq_getElem_cons few] at pending
      rw [Poll.within, List.range_succ, List.foldl_append]
      exact before.next (List.getElem?_eq_getElem few) pending

theorem Collected.pass {pass : Nat} {poll : Poll R}
    (collected : Collected queue timing requestIds pass 0 poll) :
    Collected queue timing requestIds (pass + 1) 0 (poll.pass (look queue timing pass)) := by
  have whole := (collected.within requestIds.length le_rfl).1
  rw [Poll.pass, collected.valid.asked]
  refine ⟨whole.valid, ?_, ?_⟩
  · intro result member
    obtain ⟨earlierPass, earlier, item, before, first⟩ := whole.found result member
    refine ⟨earlierPass, earlier, item, ?_, first⟩
    unfold EarlierLook at before ⊢
    omega
  · intro earlierPass earlier id before there some
    refine whole.all earlierPass earlier id ?_ there some
    have inside : earlier < requestIds.length := (List.getElem?_eq_some_iff.mp there).1
    unfold EarlierLook at before ⊢
    omega

theorem collected_after (pass : Nat) :
    Collected queue timing requestIds pass 0 (pollAfter queue timing requestIds pass) := by
  induction pass with
  | zero => exact collected_start
  | succ pass ih => exact ih.pass

end Passes

section Answers

variable {Store R : Type} {queue : AckQueue Store (Item R)} {timing : PollTiming Store}
  {requestIds : List Nat}

theorem before_passCount (pass : Nat) (less : pass < passCount queue timing requestIds) :
    timing.timedOut pass = false ∧
      (pollAfter queue timing requestIds pass).results.length < requestIds.length := by
  have again := Nat.find_min (poll_stops queue timing requestIds) less
  rw [Bool.not_eq_false, Poll.again, Bool.and_eq_true, decide_eq_true_iff, Bool.not_eq_true',
    (collected_after pass).valid.asked] at again
  exact ⟨again.2, again.1⟩

theorem at_passCount : timing.timedOut (passCount queue timing requestIds) = true ∨
    requestIds.length ≤
      (pollAfter queue timing requestIds (passCount queue timing requestIds)).results.length := by
  have stopped := Nat.find_spec (poll_stops queue timing requestIds)
  rw [Poll.again, Bool.and_eq_false_iff, decide_eq_false_iff_not, not_lt, Bool.not_eq_false',
    (collected_after _).valid.asked] at stopped
  exact stopped.symm

/-- The results of a poll have different ids of the list, so a repeated id leaves one short. -/
theorem PollFor.results_short {poll : Poll R} (valid : PollFor requestIds poll) (id : Nat)
    (repeated : 2 ≤ requestIds.count id) : poll.results.length < requestIds.length := by
  have subset : (poll.results.map Result.requestId).Subperm requestIds.dedup := by
    apply List.subperm_of_subset valid.distinct
    intro other member
    obtain ⟨result, there, rfl⟩ := List.mem_map.mp member
    exact List.mem_dedup.mpr (valid.within result there)
  have duplicate : ¬ requestIds.Nodup := by
    intro once
    exact absurd (List.nodup_iff_count_le_one.mp once id) (by omega)
  have fewer : requestIds.dedup.length < requestIds.length := by
    refine lt_of_le_of_ne (List.dedup_sublist _).length_le fun same => duplicate ?_
    rw [← (List.dedup_sublist requestIds).eq_of_length same]
    exact List.nodup_dedup _
  calc poll.results.length = (poll.results.map Result.requestId).length := by
        rw [List.length_map]
    _ ≤ requestIds.dedup.length := subset.length_le
    _ < requestIds.length := fewer

theorem PollFor.count_finish {poll : Poll R} (valid : PollFor requestIds poll) (id : Nat) :
    (poll.finish.map Result.requestId).count id =
      if id ∈ poll.responsesSoFar then 1 else requestIds.count id := by
  rw [poll.finish_perm.count_eq, valid.asked, List.count_append]
  split
  · rename_i found
    have unique : poll.responsesSoFar.Nodup := valid.distinct
    rw [List.count_eq_one_of_mem unique found, List.count_eq_zero_of_not_mem]
    intro lacking
    have absent := (List.mem_filter.mp lacking).2
    rw [decide_eq_true_iff] at absent
    exact absent found
  · rename_i lacking
    rw [List.count_eq_zero_of_not_mem lacking, Nat.zero_add, List.count_filter]
    exact decide_eq_true lacking

theorem collected_last : Collected queue timing requestIds (passCount queue timing requestIds) 0
    (pollAfter queue timing requestIds (passCount queue timing requestIds)) :=
  collected_after _

theorem finishedInTime_of_look {pass index id : Nat}
    (takesPlace : pass < passCount queue timing requestIds) (there : requestIds[index]? = some id)
    (found : (look queue timing pass index id).isSome = true) :
    FinishedInTime queue timing requestIds id :=
  ⟨pass, index, fun _ before => (before_passCount _ (before.trans_lt takesPlace)).1, there, found⟩

theorem finishedInTime_of_mem {pass : Nat} (takesPlace : pass ≤ passCount queue timing requestIds)
    (id : Nat) (found : id ∈ (pollAfter queue timing requestIds pass).responsesSoFar) :
    FinishedInTime queue timing requestIds id := by
  obtain ⟨result, member, rfl⟩ := List.mem_map.mp found
  obtain ⟨earlierPass, earlier, item, before, first, _⟩ :=
    (collected_after pass).found result member
  have inside : earlierPass < passCount queue timing requestIds := by
    unfold EarlierLook at before
    omega
  refine finishedInTime_of_look inside first.1 ?_
  rw [first.2.1]
  rfl

theorem not_asked_of_repeated (id : Nat) (repeated : 2 ≤ requestIds.count id)
    (finished : FinishedInTime queue timing requestIds id) :
    ¬ ((pollForResponses queue timing requestIds).map Result.requestId).Perm requestIds := by
  intro asked
  obtain ⟨pass, index, inTime, there, found⟩ := finished
  have last : Collected queue timing requestIds (passCount queue timing requestIds) 0
      (pollAfter queue timing requestIds (passCount queue timing requestIds)) := collected_last
  have expired := at_passCount.resolve_right (not_le.mpr (last.valid.results_short id repeated))
  have takesPlace : pass < passCount queue timing requestIds := by
    by_contra late
    rw [inTime _ (not_lt.mp late)] at expired
    cases expired
  have got := last.all pass index id (Or.inl takesPlace) there found
  have counted := asked.count_eq id
  rw [pollForResponses, last.valid.count_finish, if_pos got] at counted
  omega

theorem asked_of_once
    (once : ∀ id, 2 ≤ requestIds.count id → ¬ FinishedInTime queue timing requestIds id) :
    ((pollForResponses queue timing requestIds).map Result.requestId).Perm requestIds := by
  rw [List.perm_iff_count]
  intro id
  rw [pollForResponses, collected_last.valid.count_finish]
  split
  · rename_i found
    obtain ⟨result, member, rfl⟩ := List.mem_map.mp found
    have asked := List.count_pos_iff.mpr (collected_last.valid.within result member)
    have few : ¬ 2 ≤ requestIds.count result.requestId := fun repeated =>
      once _ repeated (finishedInTime_of_mem le_rfl _ found)
    omega
  · rfl

/-- A result has what was stored when its request was found, or nothing if it never was. -/
theorem carried_of_mem {result : Result R}
    (member : result ∈ pollForResponses queue timing requestIds) :
    (∃ pass index item, pass < passCount queue timing requestIds ∧
      FirstFound queue timing requestIds pass index result.requestId item ∧
        result.response = item.response ∧ result.error = item.error) ∨
    (result.response = none ∧ result.error = none ∧
      ∀ pass index, pass < passCount queue timing requestIds →
        requestIds[index]? = some result.requestId →
          look queue timing pass index result.requestId = none) := by
  rcases Poll.mem_finish member with given | ⟨absent, noResponse, noError⟩
  · obtain ⟨pass, index, item, before, first, same⟩ := collected_last.found result given
    refine Or.inl ⟨pass, index, item, ?_, first, same⟩
    unfold EarlierLook at before
    omega
  · refine Or.inr ⟨noResponse, noError, ?_⟩
    intro pass index takesPlace there
    by_contra some
    exact absent (collected_last.all pass index result.requestId (Or.inl takesPlace) there
      (Option.isSome_iff_ne_none.mpr some))

theorem last_of_all_found
    (once : ∀ id, 2 ≤ requestIds.count id → ¬ FinishedInTime queue timing requestIds id)
    {pass : Nat} (takesPlace : pass < passCount queue timing requestIds)
    (found : ∀ id ∈ requestIds, ∃ earlier ≤ pass, ∃ index, requestIds[index]? = some id ∧
      (look queue timing earlier index id).isSome = true) :
    passCount queue timing requestIds = pass + 1 := by
  have got : ∀ id ∈ requestIds,
      id ∈ (pollAfter queue timing requestIds (pass + 1)).responsesSoFar := by
    intro id asked
    obtain ⟨earlier, before, index, there, some⟩ := found id asked
    exact (collected_after (pass + 1)).all earlier index id
      (Or.inl (Nat.lt_succ_of_le before)) there some
  have distinct : requestIds.Nodup := by
    rw [List.nodup_iff_count_le_one]
    intro id
    by_contra repeated
    have asked : id ∈ requestIds := List.count_pos_iff.mp (by omega)
    exact once id (by omega) (finishedInTime_of_mem takesPlace id (got id asked))
  have enough : requestIds.length ≤
      (pollAfter queue timing requestIds (pass + 1)).results.length := by
    have subperm := List.subperm_of_subset distinct got
    have short := subperm.length_le
    rwa [Poll.responsesSoFar, List.length_map] at short
  by_contra more
  exact absurd (before_passCount (pass + 1) (by omega)).2 (not_lt.mpr enough)

/-- The server answers what it was asked exactly if no id that is in the list more than once is
found finished before the time is over. -/
theorem answers_asked_iff (queue : AckQueue Store (Item R)) (timing : PollTiming Store)
    (requestIds : List Nat) : AnswersAsked queue timing requestIds ↔
      ∀ id, 2 ≤ requestIds.count id → ¬ FinishedInTime queue timing requestIds id := by
  constructor
  · intro answers id repeated finished
    exact not_asked_of_repeated id repeated finished answers.asked
  · intro once
    exact {
      asked := asked_of_once once
      sorted := Poll.finish_sorted _
      carried := fun _ member => carried_of_mem member
      timely := fun _ takesPlace found => last_of_all_found once takesPlace found }

end Answers

def threePasses {Store : Type} (store : Store) : PollTiming Store where
  store := fun _ _ => store
  timedOut := fun pass => decide (3 ≤ pass)
  expires := ⟨3, rfl⟩

def answeredPrompt : Server (Table (Item String)) Int :=
  run (serve (tableQueue (Item String))) (initialServer (tableQueue (Item String)))
    [.generate (some "model") none ["prompt"] (fun _ => 5), .getWork 1,
      .finishWork [⟨⟨1, some "response", none⟩, none, none⟩] (fun _ => 7)]

/-- The finished request is asked for twice, and there is one result. -/
theorem repeated_id_answered_once :
    ¬ ∀ (timing : PollTiming (Table (Item String))) (requestIds : List Nat),
      AnswersAsked (tableQueue (Item String)) timing requestIds := by
  intro claimed
  have answers := claimed (threePasses answeredPrompt.store) [1, 1]
  refine not_asked_of_repeated 1 (by decide) ⟨0, 0, ?_, rfl, by decide⟩ answers.asked
  intro earlier first
  rw [Nat.le_zero.mp first]
  rfl

end ScalarLM.Queue
