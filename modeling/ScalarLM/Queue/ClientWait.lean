import ScalarLM.Queue.PollAnswers

/-! Whether the SDK's wait for its responses ends once the work is done. -/

namespace ScalarLM.Queue

open Transition

section Finished

variable {Store R : Type} (queue : AckQueue Store (Item R))

/-- A request's row is still there, acked, with what `finish_work` wrote to the item that was
put on the queue. -/
def FinishedBy (request : FinishRequest R) (id : Nat) (store : Store) : Prop :=
  ∃ row ∈ queue.queue store, row.id = id ∧ row.status = .acked ∧
    ∃ item : Item R, item.response = none ∧ item.error = none ∧ row.data = finishItem request item

/-- All requests of a call are finished, each with its own payload. -/
def AllFinished (payload : Nat → FinishRequest R) (requestIds : List Nat)
    (timing : PollTiming Store) : Prop :=
  ∀ pass index, ∀ id ∈ requestIds, FinishedBy queue (payload id) id (timing.store pass index)

variable {queue}

theorem FinishedBy.found {request : FinishRequest R} {id : Nat} {store : Store}
    (finished : FinishedBy queue request id store) :
    ∃ item, getIfFinished queue id store = some item ∧ item.response = request.response ∧
      item.error = request.error := by
  obtain ⟨row, member, hit, acked, item, noResponse, noError, data⟩ := finished
  cases found : (queue.queue store).find? fun row => row.id = id ∧ row.status = .acked with
  | none =>
      have missed := List.find?_eq_none.mp found row member
      simp [hit, acked] at missed
  | some other =>
      have both := List.find?_some found
      rw [decide_eq_true_iff] at both
      have same : other = row := queue.unique store other (List.mem_of_find?_eq_some found) row
        member (both.1.trans hit.symm)
      refine ⟨other.data, by rw [getIfFinished, found]; rfl, ?_, ?_⟩
      · rw [same, data, finishItem, noResponse, Option.or_none]
      · rw [same, data, finishItem, noError, Option.or_none]

end Finished

section Reply

variable {R : Type}

theorem isFinished_eq_false (results : List (Result R)) :
    isFinished results = some false ↔ ∃ front result back, results = front ++ result :: back ∧
      (∀ earlier ∈ front, earlier.error = none) ∧ result.error = none ∧
        result.response = none := by
  induction results with
  | nil => simp [isFinished]
  | cons head rest ih =>
      rw [isFinished]
      constructor
      · intro waits
        split at waits
        · cases waits
        · rename_i fine
          rw [Option.not_isSome_iff_eq_none] at fine
          split at waits
          · rename_i empty
            exact ⟨[], head, rest, rfl, List.forall_mem_nil _, fine,
              Option.isNone_iff_eq_none.mp empty⟩
          · obtain ⟨front, result, back, rfl, before, here⟩ := ih.mp waits
            exact ⟨head :: front, result, back, rfl, List.forall_mem_cons.mpr ⟨fine, before⟩, here⟩
      · intro given
        obtain ⟨front, result, back, split, before, fine, empty⟩ := given
        cases front with
        | nil =>
            obtain ⟨rfl, rfl⟩ := List.cons.inj split
            simp [fine, empty]
        | cons first front =>
            obtain ⟨rfl, rfl⟩ := List.cons.inj split
            obtain ⟨noError, before⟩ := List.forall_mem_cons.mp before
            have later := ih.mpr ⟨front, result, back, rfl, before, fine, empty⟩
            simp only [noError, Option.isSome_none, Bool.false_eq_true, if_false]
            split
            · rfl
            · exact later

/-- The SDK goes on waiting exactly if some request has neither response nor error, and no
request with a lower id has an error. -/
theorem isFinished_of_payloads (results : List (Result R)) (payload : Nat → FinishRequest R)
    (ordered : (results.map Result.requestId).Pairwise (· < ·))
    (carried : ∀ result ∈ results, result.response = (payload result.requestId).response ∧
      result.error = (payload result.requestId).error) :
    isFinished results ≠ some false ↔ ∀ id ∈ results.map Result.requestId,
      (payload id).response = none → (payload id).error = none →
        ∃ earlier ∈ results.map Result.requestId, earlier < id ∧
          (payload earlier).error.isSome = true := by
  rw [ne_eq, isFinished_eq_false]
  constructor
  · intro ends id asked noResponse noError
    obtain ⟨result, member, rfl⟩ := List.mem_map.mp asked
    obtain ⟨same, sameError⟩ := carried result member
    obtain ⟨front, back, rfl⟩ := List.append_of_mem member
    by_contra alone
    refine ends ⟨front, result, back, rfl, ?_, sameError.trans noError, same.trans noResponse⟩
    intro earlier before
    rw [List.map_append, List.pairwise_append] at ordered
    by_contra failed
    refine alone ⟨earlier.requestId, ?_, ?_, ?_⟩
    · exact List.mem_map_of_mem (List.mem_append_left _ before)
    · exact ordered.2.2 _ (List.mem_map_of_mem before) _ List.mem_cons_self
    · rw [← (carried earlier (List.mem_append_left _ before)).2, Option.isSome_iff_ne_none]
      exact failed
  · intro preceded waits
    obtain ⟨front, result, back, rfl, before, fine, empty⟩ := waits
    have here : result ∈ front ++ result :: back := List.mem_append_right _ List.mem_cons_self
    obtain ⟨same, sameError⟩ := carried result here
    obtain ⟨earlier, asked, less, failed⟩ := preceded _ (List.mem_map_of_mem here)
      (same.symm.trans empty) (sameError.symm.trans fine)
    obtain ⟨other, member, rfl⟩ := List.mem_map.mp asked
    have inFront : other ∈ front := by
      rw [List.map_append, List.map_cons, List.pairwise_append, List.pairwise_cons] at ordered
      rcases List.mem_append.mp member with front' | late
      · exact front'
      · rcases List.mem_cons.mp late with rfl | after
        · exact absurd less (lt_irrefl _)
        · exact absurd less (ordered.2.1.1 _ (List.mem_map_of_mem after)).asymm
    rw [← (carried other member).2, before other inFront] at failed
    cases failed

end Reply

section Wait

variable {Store R : Type} {queue : AckQueue Store (Item R)} {timing : PollTiming Store}
  {requestIds : List Nat} {payload : Nat → FinishRequest R}

theorem passCount_pos (filled : requestIds ≠ []) (inTime : timing.timedOut 0 = false) :
    0 < passCount queue timing requestIds := by
  rw [passCount, Nat.find_pos]
  simp [Poll.again, pollAfter, Poll.start, inTime, List.length_pos_iff.mpr filled]

theorem found_of_finished (finished : AllFinished queue payload requestIds timing)
    (inTime : requestIds ≠ [] → timing.timedOut 0 = false) (id : Nat) (asked : id ∈ requestIds) :
    id ∈ (pollAfter queue timing requestIds
      (passCount queue timing requestIds)).responsesSoFar := by
  obtain ⟨index, there⟩ := List.mem_iff_getElem?.mp asked
  obtain ⟨item, found, _⟩ := (finished 0 index id asked).found
  have filled : requestIds ≠ [] := List.ne_nil_of_mem asked
  refine collected_last.all 0 index id (Or.inl (passCount_pos filled (inTime filled))) there ?_
  rw [look, found]
  rfl

/-- Each id is in the reply for finished requests once, however often it was asked for. -/
theorem count_of_finished (finished : AllFinished queue payload requestIds timing)
    (inTime : requestIds ≠ [] → timing.timedOut 0 = false) (id : Nat) :
    ((pollForResponses queue timing requestIds).map Result.requestId).count id =
      if id ∈ requestIds then 1 else 0 := by
  rw [pollForResponses, collected_last.valid.count_finish]
  by_cases asked : id ∈ requestIds
  · rw [if_pos (found_of_finished finished inTime id asked), if_pos asked]
  · rw [if_neg asked, List.count_eq_zero_of_not_mem asked, if_neg]
    intro found
    obtain ⟨result, member, rfl⟩ := List.mem_map.mp found
    exact asked (collected_last.valid.within result member)

theorem reply_of_finished (finished : AllFinished queue payload requestIds timing)
    (inTime : requestIds ≠ [] → timing.timedOut 0 = false) :
    (∀ id, id ∈ (pollForResponses queue timing requestIds).map Result.requestId ↔
      id ∈ requestIds) ∧
    ((pollForResponses queue timing requestIds).map Result.requestId).Pairwise (· < ·) ∧
    ∀ result ∈ pollForResponses queue timing requestIds,
      result.response = (payload result.requestId).response ∧
        result.error = (payload result.requestId).error := by
  have counts := count_of_finished finished inTime
  have ids (id : Nat) : id ∈ (pollForResponses queue timing requestIds).map Result.requestId ↔
      id ∈ requestIds := by
    rw [← List.count_pos_iff, counts]
    split <;> simp [*]
  refine ⟨ids, ?_, ?_⟩
  · have distinct : ((pollForResponses queue timing requestIds).map Result.requestId).Nodup := by
      rw [List.nodup_iff_count_le_one]
      intro id
      rw [counts]
      split <;> omega
    have sorted : ((pollForResponses queue timing requestIds).map Result.requestId).Pairwise
        (· ≤ ·) := Poll.finish_sorted _
    exact (sorted.and distinct).imp fun both => lt_of_le_of_ne both.1 both.2
  · intro result member
    have asked := (ids _).mp (List.mem_map_of_mem member)
    rcases Poll.mem_finish member with given | ⟨absent, -⟩
    · obtain ⟨pass, index, item, _, first, response, error⟩ := collected_last.found result given
      obtain ⟨other, found, sameResponse, sameError⟩ := (finished pass index _ asked).found
      have same : other = item := by
        rw [← Option.some.injEq, ← found, ← first.2.1]
        rfl
      rw [response, error, ← same]
      exact ⟨sameResponse, sameError⟩
    · exact absurd (found_of_finished finished inTime _ asked) absent

theorem reply_out_of_time (filled : requestIds ≠ []) (late : timing.timedOut 0 = true) :
    isFinished (pollForResponses queue timing requestIds) = some false := by
  have noPass : passCount queue timing requestIds = 0 := by
    rw [passCount, Nat.find_eq_zero, Poll.again, late, Bool.not_true, Bool.and_false]
  have empty : ∀ result ∈ pollForResponses queue timing requestIds,
      result.error = none ∧ result.response = none := by
    intro result member
    rw [pollForResponses, noPass, Poll.finish, List.mem_insertionSort] at member
    simp only [pollAfter, Poll.start, List.nil_append, List.mem_map] at member
    obtain ⟨id, _, rfl⟩ := member
    exact ⟨rfl, rfl⟩
  have replied : pollForResponses queue timing requestIds ≠ [] := by
    intro nothing
    have lengths := congrArg List.length nothing
    rw [pollForResponses, noPass, Poll.finish, List.length_insertionSort] at lengths
    simp [pollAfter, Poll.start, Poll.responsesSoFar, filled] at lengths
  obtain ⟨first, rest, split⟩ := List.exists_cons_of_ne_nil replied
  rw [isFinished_eq_false]
  have here := empty first (split ▸ List.mem_cons_self)
  exact ⟨[], first, rest, split, List.forall_mem_nil _, here⟩

/-- When all requests of a call are finished, the next reply ends the SDK's wait exactly if it
is not out of time at once, and each payload with neither response nor error comes after one
with an error. -/
theorem wait_ends_iff (queue : AckQueue Store (Item R)) (timing : PollTiming Store)
    (requestIds : List Nat) (payload : Nat → FinishRequest R)
    (finished : AllFinished queue payload requestIds timing) :
    isFinished (pollForResponses queue timing requestIds) ≠ some false ↔
      (requestIds ≠ [] → timing.timedOut 0 = false) ∧
        ∀ id ∈ requestIds, (payload id).response = none → (payload id).error = none →
          ∃ earlier ∈ requestIds, earlier < id ∧ (payload earlier).error.isSome = true := by
  by_cases inTime : requestIds ≠ [] → timing.timedOut 0 = false
  · obtain ⟨ids, ordered, carried⟩ := reply_of_finished finished inTime
    rw [isFinished_of_payloads _ payload ordered carried, and_iff_right inTime]
    simp only [ids]
  · obtain ⟨filled, late⟩ := not_forall.mp inTime
    rw [reply_out_of_time filled (Bool.not_eq_false _ ▸ late)]
    simp [inTime]

end Wait

def answeredBatch (first second : FinishRequest String) : Server (Table (Item String)) Int :=
  run (serve (tableQueue (Item String))) (initialServer (tableQueue (Item String)))
    [.generate (some "model") none ["prompt"] (fun _ => 5), .embed "model" ["text"], .getWork 2,
      .finishWork [⟨first, none, none⟩, ⟨second, none, none⟩] (fun _ => 7)]

def emptyPayload : FinishRequest String := ⟨2, none, none⟩

def failedPayload : FinishRequest String := ⟨1, none, some "failed"⟩

theorem answeredBatch_finished : AllFinished (tableQueue (Item String))
    (fun id => if id = 1 then failedPayload else emptyPayload) [1, 2]
      (threePasses (answeredBatch failedPayload emptyPayload).store) := by
  intro pass index id asked
  have either : id = 1 ∨ id = 2 := by simpa using asked
  rcases either with rfl | rfl
  · exact ⟨⟨1, .acked, finishItem failedPayload (generateItem "model" none "prompt")⟩,
      List.mem_cons_self, rfl, rfl, generateItem "model" none "prompt", rfl, rfl, rfl⟩
  · exact ⟨⟨2, .acked, finishItem emptyPayload (embedItem "model" "text")⟩,
      List.mem_cons_of_mem _ List.mem_cons_self, rfl, rfl, embedItem "model" "text", rfl, rfl, rfl⟩

/-- The error of the first prompt ends the wait for both. -/
theorem failed_prompt_ends_wait : isFinished (pollForResponses (tableQueue (Item String))
    (threePasses (answeredBatch failedPayload emptyPayload).store) [1, 2]) ≠ some false :=
  (wait_ends_iff (tableQueue (Item String)) _ [1, 2] _ answeredBatch_finished).mpr
    ⟨fun _ => rfl, by decide⟩

/-- Alone, the embedding is waited for again after every reply. -/
theorem empty_payload_waited_for :
    ¬ ∀ (timing : PollTiming (Table (Item String))) (requestIds : List Nat)
      (payload : Nat → FinishRequest String),
      AllFinished (tableQueue (Item String)) payload requestIds timing →
        isFinished (pollForResponses (tableQueue (Item String)) timing requestIds) ≠
          some false := by
  intro claimed
  have finished : AllFinished (tableQueue (Item String)) (fun _ => emptyPayload) [2]
      (threePasses (answeredBatch failedPayload emptyPayload).store) := by
    intro pass index id asked
    rw [List.mem_singleton.mp asked]
    exact answeredBatch_finished pass index 2 (by decide)
  have ends := claimed _ [2] _ finished
  obtain ⟨ids, ordered, carried⟩ := reply_of_finished finished fun _ => rfl
  obtain ⟨earlier, asked, less, _⟩ := (isFinished_of_payloads _ (fun _ => emptyPayload) ordered
    carried).mp ends 2
    ((ids 2).mpr List.mem_cons_self) rfl rfl
  rw [List.mem_singleton.mp ((ids earlier).mp asked)] at less
  exact absurd less (lt_irrefl 2)

end ScalarLM.Queue
