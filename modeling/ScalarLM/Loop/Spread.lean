import Mathlib.Algebra.Order.BigOperators.Group.Finset
import Mathlib.Algebra.Order.Ring.Int
import Mathlib.Tactic.Linarith
import Mathlib.Tactic.Ring
import ScalarLM.Loop.Thinning

/-! How evenly the entries of a training history are spread over the steps. -/

namespace ScalarLM.Loop

open Finset

theorem sum_two_apart (places : Nat → Int) (count : Nat) :
    ∑ index ∈ range count, (places (index + 2) - places index) =
      (places (count + 1) + places count) - (places 1 + places 0) := by
  induction count with
  | zero => simp
  | succ count ih =>
      rw [sum_range_succ, ih]
      ring

theorem least_two_apart (places : Nat → Int) (count : Nat) (least : Int)
    (below : ∀ index < count, least ≤ places (index + 2) - places index)
    (rising : places 0 ≤ places 1) (last : places count ≤ places (count + 1)) :
    least * count ≤ 2 * (places (count + 1) - places 0) := by
  have sum := card_nsmul_le_sum (range count)
    (fun index => places (index + 2) - places index) least
    fun index inside => below index (mem_range.mp inside)
  rw [card_range, sum_two_apart, nsmul_eq_mul] at sum
  linarith [mul_comm (count : Int) least]

variable {Data : Type}

def spacing (history : List (HistoryEntry Data)) (index : Nat) : Int :=
  (stepAt history (index + 1) : Int) - stepAt history index

def lastStep (history : List (HistoryEntry Data)) : Nat :=
  stepAt history (history.length - 1)

theorem lastStep_snoc (front : List (HistoryEntry Data)) (entry : HistoryEntry Data) :
    lastStep (front ++ [entry]) = entry.step := by
  rw [lastStep, List.length_append, List.length_singleton, Nat.add_sub_cancel, stepAt_snoc]

theorem stepAt_eq (history : List (HistoryEntry Data)) (index : Nat)
    (inside : index < history.length) : stepAt history index = history[index].step := by
  simp [stepAt, inside]

theorem stepAt_eraseIdx (history : List (HistoryEntry Data)) (removed index : Nat) :
    stepAt (history.eraseIdx removed) index =
      if index < removed then stepAt history index else stepAt history (index + 1) := by
  simp only [stepAt, ← List.eraseIdx_map, List.getD_eq_getElem?_getD, List.getElem?_eraseIdx]
  split <;> rfl

theorem stepAt_le {history : List (HistoryEntry Data)} (increasing : Increasing history)
    (index : Nat) (inside : index + 1 < history.length) :
    stepAt history index ≤ stepAt history (index + 1) := by
  rw [stepAt_eq _ _ inside, stepAt_eq _ _ (by omega)]
  exact (List.pairwise_iff_getElem.mp increasing index (index + 1) _ _ (Nat.lt_succ_self _)).le

/-- Neighbours that a removal brings together are no farther apart than twice the
average distance. -/
theorem LeftmostClosest.gap_le {history : List (HistoryEntry Data)} {index : Nat}
    (leftmost : LeftmostClosest history index) (increasing : Increasing history) :
    gap history index * (history.length - 2 : Nat) ≤
      2 * ((lastStep history : Int) - stepAt history 0) := by
  have inner := leftmost.inner
  have last : lastStep history = stepAt history (history.length - 2 + 1) := by
    rw [lastStep]
    congr 1
    omega
  rw [last]
  apply least_two_apart (fun index => (stepAt history index : Int))
  · intro other inside
    exact leftmost.least other (by omega)
  · exact Int.ofNat_le.mpr (stepAt_le increasing 0 (by omega))
  · exact Int.ofNat_le.mpr (stepAt_le increasing (history.length - 2) (by omega))

/-- No two neighbours are farther apart than twice the distance of entries that divide
the steps evenly. -/
def Spread (maxLength : Int) (history : List (HistoryEntry Data)) : Prop :=
  ∀ index, index + 1 < history.length → spacing history index ≤ 1 ∨
    spacing history index * (maxLength - 1) ≤
      2 * ((lastStep history : Int) - stepAt history 0)

theorem Spread.snoc {maxLength : Int} {history : List (HistoryEntry Data)}
    (spread : Spread maxLength history) (entry : HistoryEntry Data) (nonempty : history ≠ [])
    (next : entry.step = lastStep history + 1) : Spread maxLength (history ++ [entry]) := by
  have positive := List.length_pos_iff.mpr nonempty
  intro index inside
  rw [List.length_append, List.length_singleton] at inside
  rw [lastStep_snoc, stepAt_append _ _ 0 positive]
  by_cases old : index + 1 < history.length
  · have same : spacing (history ++ [entry]) index = spacing history index := by
      rw [spacing, spacing, stepAt_append _ _ _ old, stepAt_append _ _ _ (by omega)]
    rw [same]
    rcases spread index old with near | bound
    · exact Or.inl near
    · right
      rw [next]
      push_cast
      linarith
  · have last : index + 1 = history.length := by omega
    left
    rw [spacing, last, stepAt_snoc, stepAt_append _ _ _ (by omega), next, lastStep, ← last,
      Nat.add_sub_cancel]
    push_cast
    linarith

theorem lastStep_eraseIdx (history : List (HistoryEntry Data)) (removed : Nat)
    (inner : removed + 1 < history.length) :
    lastStep (history.eraseIdx removed) = lastStep history := by
  rw [lastStep, List.length_eraseIdx_of_lt (by omega), stepAt_eraseIdx, if_neg (by omega), lastStep]
  congr 1
  omega

/-- Removing the leftmost closest entry leaves the others where they are and brings
two of them together, which are not too far apart for it. -/
theorem Spread.eraseIdx {maxLength : Int} {history : List (HistoryEntry Data)}
    (spread : Spread maxLength history) (increasing : Increasing history)
    (long : (history.length : Int) = maxLength + 1) {index : Nat}
    (leftmost : LeftmostClosest history index) :
    Spread maxLength (history.eraseIdx (index + 1)) := by
  have inner := leftmost.inner
  intro other inside
  rw [List.length_eraseIdx_of_lt (by omega)] at inside
  rw [lastStep_eraseIdx _ _ (by omega), stepAt_eraseIdx, if_pos (Nat.succ_pos _)]
  rcases Nat.lt_trichotomy other index with before | rfl | after
  · have same : spacing (history.eraseIdx (index + 1)) other = spacing history other := by
      rw [spacing, spacing, stepAt_eraseIdx, stepAt_eraseIdx, if_pos (by omega),
        if_pos (by omega)]
    rw [same]
    exact spread other (by omega)
  · right
    have joined : spacing (history.eraseIdx (other + 1)) other = gap history other := by
      rw [spacing, gap, stepAt_eraseIdx, stepAt_eraseIdx, if_neg (by omega), if_pos (by omega)]
    have count : (maxLength - 1 : Int) = (history.length - 2 : Nat) := by omega
    rw [joined, count]
    exact leftmost.gap_le increasing
  · have same : spacing (history.eraseIdx (index + 1)) other = spacing history (other + 1) := by
      rw [spacing, spacing, stepAt_eraseIdx, stepAt_eraseIdx, if_neg (by omega),
        if_neg (by omega)]
    rw [same]
    exact spread (other + 1) (by omega)

/-- The calls of `update_history` for consecutive steps, on a history that is empty
before the first of them. -/
def recordSteps (logged : Nat → Data) (maxLength : Int) (start : Nat) :
    Nat → Option (List (HistoryEntry Data))
  | 0 => some []
  | count + 1 =>
      (recordSteps logged maxLength start count).bind fun history =>
        recordEntry (fun _ step => logged step) maxLength history (start + count)

/-- Entries of consecutive steps, from the first to the last one, each with what was
logged at its step. -/
structure StepSample (logged : Nat → Data) (maxLength : Int) (start count : Nat)
    (history : List (HistoryEntry Data)) : Prop where
  first : stepAt history 0 = start
  last : lastStep history + 1 = start + count
  increasing : Increasing history
  logged : ∀ entry ∈ history, start ≤ entry.step ∧ entry.step < start + count ∧
    entry.data = logged entry.step
  spread : Spread maxLength history

/-- A sample with as many entries as there are steps or may be entries. -/
structure EvenSample (logged : Nat → Data) (maxLength : Int) (start count : Nat)
    (history : List (HistoryEntry Data)) : Prop
    extends StepSample logged maxLength start count history where
  length : (history.length : Int) = min (count : Int) maxLength

section Sampling

variable {logged : Nat → Data} {maxLength : Int} {start count : Nat}
  {history : List (HistoryEntry Data)}

theorem StepSample.single : StepSample logged maxLength start 1 [⟨start, logged start⟩] where
  first := rfl
  last := rfl
  increasing := List.pairwise_singleton _ _
  logged := by
    intro entry member
    rw [List.mem_singleton.mp member]
    exact ⟨Nat.le_refl _, Nat.lt_succ_self _, rfl⟩
  spread := fun index inside => absurd inside (by simp)

theorem StepSample.snoc (sample : StepSample logged maxLength start count history)
    (nonempty : history ≠ []) :
    StepSample logged maxLength start (count + 1)
      (history ++ [⟨start + count, logged (start + count)⟩]) where
  first := by
    rw [stepAt_append _ _ _ (List.length_pos_iff.mpr nonempty)]
    exact sample.first
  last := by
    rw [lastStep_snoc]
    rfl
  increasing := by
    rw [increasing_snoc_iff _ sample.increasing]
    intro earlier member
    exact (sample.logged earlier member).2.1
  logged := by
    intro entry member
    rcases List.mem_append.mp member with old | new
    · obtain ⟨from_start, before, own⟩ := sample.logged entry old
      exact ⟨from_start, by omega, own⟩
    · rw [List.mem_singleton.mp new]
      exact ⟨Nat.le_add_right _ _, Nat.lt_succ_self _, rfl⟩
  spread := sample.spread.snoc _ nonempty sample.last.symm

theorem StepSample.eraseIdx (sample : StepSample logged maxLength start count history)
    (long : (history.length : Int) = maxLength + 1) {index : Nat}
    (leftmost : LeftmostClosest history index) :
    StepSample logged maxLength start count (history.eraseIdx (index + 1)) where
  first := by
    rw [stepAt_eraseIdx, if_pos (Nat.succ_pos _)]
    exact sample.first
  last := by
    rw [lastStep_eraseIdx _ _ leftmost.inner]
    exact sample.last
  increasing := sample.increasing.sublist (List.eraseIdx_sublist _ _)
  logged := fun entry member => sample.logged entry (List.mem_of_mem_eraseIdx member)
  spread := sample.spread.eraseIdx sample.increasing long leftmost

/-- Another call keeps the sample even. -/
theorem EvenSample.step (sample : EvenSample logged maxLength start count history)
    (atLeast : 2 ≤ maxLength) (some_steps : 0 < count) :
    ∃ next, recordEntry (fun _ step => logged step) maxLength history (start + count) =
        some next ∧ EvenSample logged maxLength start (count + 1) next := by
  have length := sample.length
  have nonempty : history ≠ [] := by
    apply List.ne_nil_of_length_pos
    omega
  have appended := sample.toStepSample.snoc nonempty
  have longer : (history ++ [(⟨start + count, logged (start + count)⟩ :
      HistoryEntry Data)]).length = history.length + 1 := List.length_append
  obtain ⟨kept, recorded, ⟨room, rfl⟩ | ⟨full, index, leftmost, rfl⟩⟩ :=
    recordEntry_some (fun _ step => logged step) history (start + count) atLeast (by omega)
  · exact ⟨_, recorded, appended, by rw [longer]; omega⟩
  · have inner := leftmost.inner
    rw [longer] at inner
    have erased := appended.eraseIdx (by rw [longer]; omega) leftmost
    rw [List.eraseIdx_append_of_lt_length (by omega)] at erased
    refine ⟨_, recorded, erased, ?_⟩
    rw [List.length_append, List.length_singleton, List.length_eraseIdx_of_lt (by omega)]
    omega

theorem recordSteps_even (atLeast : 2 ≤ maxLength) (start count : Nat) :
    ∃ history, recordSteps logged maxLength start (count + 1) = some history ∧
      EvenSample logged maxLength start (count + 1) history := by
  induction count with
  | zero =>
      refine ⟨[⟨start, logged start⟩], ?_, StepSample.single, ?_⟩
      · rw [recordSteps, recordSteps, Option.bind_some, recordEntry, if_neg]
        · rfl
        · rw [List.nil_append, List.length_singleton]
          omega
      · rw [List.length_singleton]
        omega
  | succ count ih =>
      obtain ⟨history, recorded, sample⟩ := ih
      obtain ⟨next, step, even⟩ := sample.step atLeast (Nat.succ_pos count)
      refine ⟨next, ?_, even⟩
      rw [recordSteps, recorded, Option.bind_some]
      exact step

end Sampling

/-- Whatever is logged and however many steps there are, the history is an even sample
of them after each call. -/
theorem history_evenly_spread (logged : Nat → Data) (maxLength : Int) (atLeast : 2 ≤ maxLength)
    (start count : Nat) (some_steps : 0 < count) :
    ∃ history, recordSteps logged maxLength start count = some history ∧
      EvenSample logged maxLength start count history := by
  obtain ⟨before, rfl⟩ := Nat.exists_eq_succ_of_ne_zero some_steps.ne'
  exact recordSteps_even atLeast start before

theorem history_evenly_spread_three_of_six :
    ∃ history, recordSteps (fun step => step * step) 3 10 6 = some history ∧
      EvenSample (fun step => step * step) 3 10 6 history :=
  history_evenly_spread _ 3 (by decide) 10 6 (by decide)

/-- Five entries of nine steps. -/
example : (recordSteps (fun _ => ()) 5 0 9).map (fun history =>
    history.map HistoryEntry.step) = some [0, 2, 4, 6, 8] := by decide

end ScalarLM.Loop
