import ScalarLM.Loop.History

/-! Which entry of a training history makes way for a new one. -/

namespace ScalarLM.Loop

variable {Data : Type}

def stepAt (history : List (HistoryEntry Data)) (index : Nat) : Nat :=
  (history.map HistoryEntry.step).getD index 0

def gap (history : List (HistoryEntry Data)) (index : Nat) : Int :=
  (stepAt history (index + 2) : Int) - stepAt history index

@[simp] theorem gap_cons_succ (entry : HistoryEntry Data) (rest : List (HistoryEntry Data))
    (index : Nat) : gap (entry :: rest) (index + 1) = gap rest index := rfl

theorem stepAt_append (front back : List (HistoryEntry Data)) (index : Nat)
    (inside : index < front.length) : stepAt (front ++ back) index = stepAt front index := by
  rw [stepAt, List.map_append, List.getD_eq_getElem?_getD,
    List.getElem?_append_left (by rwa [List.length_map]), ← List.getD_eq_getElem?_getD, stepAt]

theorem stepAt_snoc (front : List (HistoryEntry Data)) (entry : HistoryEntry Data) :
    stepAt (front ++ [entry]) front.length = entry.step := by
  simp [stepAt]

/-- No entry after a first one has closer neighbours, and none before an equally close pair. -/
structure LeftmostClosest (history : List (HistoryEntry Data)) (index : Nat) : Prop where
  inner : index + 2 < history.length
  least : ∀ other, other + 2 < history.length → gap history index ≤ gap history other
  first : ∀ other < index, gap history index < gap history other

theorem LeftmostClosest.cons {history : List (HistoryEntry Data)} {index : Nat}
    (leftmost : LeftmostClosest history index) (before : HistoryEntry Data)
    (closer : gap history index < gap (before :: history) 0) :
    LeftmostClosest (before :: history) (index + 1) where
  inner := by
    rw [List.length_cons]
    exact Nat.succ_lt_succ leftmost.inner
  least := by
    intro other inner
    rw [gap_cons_succ]
    cases other with
    | zero => exact Int.le_of_lt closer
    | succ other => exact leftmost.least other (Nat.lt_of_succ_lt_succ inner)
  first := by
    intro other below
    rw [gap_cons_succ]
    cases other with
    | zero => exact closer
    | succ other => exact leftmost.first other (Nat.lt_of_succ_lt_succ below)

/-- The candidate that the loop has so far stays, or the leftmost closest entry of the rest
has closer neighbours. -/
theorem closestFrom_spec (start : Nat) (minDiff : Int) (minIndex : Nat)
    (history : List (HistoryEntry Data)) :
    (closestFrom start (some (minDiff, minIndex)) history = some (minDiff, minIndex) ∧
        ∀ other, other + 2 < history.length → minDiff ≤ gap history other) ∨
      ∃ index, closestFrom start (some (minDiff, minIndex)) history =
          some (gap history index, start + index) ∧
        gap history index < minDiff ∧ LeftmostClosest history index := by
  induction history generalizing start minDiff minIndex with
  | nil => exact .inl ⟨rfl, by simp⟩
  | cons before rest ih =>
      match rest, ih with
      | [], _ => exact .inl ⟨rfl, by simp⟩
      | [_], _ => exact .inl ⟨rfl, fun other inner => absurd inner (by simp)⟩
      | entry :: after :: rest, ih =>
          -- What the loop finds in the rest, once the first inner entry is compared.
          have later {diff : Int} {found : Nat} {index : Nat}
              (result : closestFrom (start + 1) (some (diff, found)) (entry :: after :: rest) =
                some (gap (entry :: after :: rest) index, start + 1 + index)) :
              closestFrom (start + 1) (some (diff, found)) (entry :: after :: rest) =
                some (gap (before :: entry :: after :: rest) (index + 1), start + (index + 1)) := by
            rw [result, gap_cons_succ, Nat.add_assoc, Nat.add_comm 1 index]
          rw [closestFrom]
          split
          · rename_i closer
            rcases ih (start + 1) ((after.step : Int) - before.step) start with
              ⟨result, bound⟩ | ⟨index, result, below, leftmost⟩
            · refine .inr ⟨0, result, closer, ?_, ?_, ?_⟩
              · simp only [List.length_cons]
                omega
              · intro other inner
                cases other with
                | zero => exact Int.le_refl _
                | succ other => exact bound other (Nat.lt_of_succ_lt_succ inner)
              · intro other below
                exact absurd below (Nat.not_lt_zero _)
            · exact .inr ⟨index + 1, later result, Int.lt_trans below closer,
                leftmost.cons before below⟩
          · rename_i farther
            rcases ih (start + 1) minDiff minIndex with
              ⟨result, bound⟩ | ⟨index, result, below, leftmost⟩
            · refine .inl ⟨result, ?_⟩
              intro other inner
              cases other with
              | zero => exact Int.not_lt.mp farther
              | succ other => exact bound other (Nat.lt_of_succ_lt_succ inner)
            · exact .inr ⟨index + 1, later result, below,
                leftmost.cons before (Int.lt_of_lt_of_le below (Int.not_lt.mp farther))⟩

/-- From three entries on, the loop finds the leftmost of those with the closest neighbours. -/
theorem closestEntry_leftmost (history : List (HistoryEntry Data)) (three : 3 ≤ history.length) :
    ∃ index, closestEntry history = some (index + 1) ∧ LeftmostClosest history index := by
  match history with
  | [] | [_] | [_, _] => simp at three
  | before :: entry :: after :: rest =>
      have start : closestEntry (before :: entry :: after :: rest) =
          (closestFrom 2 (some ((after.step : Int) - before.step, 1))
            (entry :: after :: rest)).map Prod.snd := rfl
      rw [start]
      rcases closestFrom_spec 2 ((after.step : Int) - before.step) 1 (entry :: after :: rest) with
        ⟨result, bound⟩ | ⟨index, result, below, leftmost⟩
      · refine ⟨0, by rw [result]; rfl, by simp, ?_, ?_⟩
        · intro other inner
          cases other with
          | zero => exact Int.le_refl _
          | succ other => exact bound other (Nat.lt_of_succ_lt_succ inner)
        · intro other below
          exact absurd below (Nat.not_lt_zero _)
      · refine ⟨index + 1, ?_, leftmost.cons before below⟩
        rw [result, Option.map_some, Nat.add_comm 2 index]

section Recording

variable (data : List (HistoryEntry Data) → Nat → Data) (maxLength : Int)

def recordEntry (history : List (HistoryEntry Data)) (step : Nat) :
    Option (List (HistoryEntry Data)) :=
  let appended := history ++ [⟨step, data history step⟩]
  if maxLength < appended.length then removeClosestEntry maxLength appended else some appended

def Increasing (history : List (HistoryEntry Data)) : Prop :=
  history.Pairwise fun earlier later => earlier.step < later.step

/-- A full history makes room for a new step by its last entry: the step comes after the entry
before the last one, and closer after it than any two entries with one between them. -/
def Displaced (history : List (HistoryEntry Data)) (step : Nat) : Prop :=
  history.length = maxLength ∧ stepAt history (history.length - 2) < step ∧
    ∀ index < history.length - 2,
      step + stepAt history index < stepAt history (index + 2) + stepAt history (history.length - 2)

instance (history : List (HistoryEntry Data)) (step : Nat) :
    Decidable (Displaced maxLength history step) :=
  inferInstanceAs (Decidable (_ ∧ _ ∧ _))

variable {maxLength}

theorem recordEntry_some (history : List (HistoryEntry Data)) (step : Nat)
    (atLeast : 2 ≤ maxLength) (short : history.length ≤ maxLength) :
    ∃ kept, recordEntry data maxLength history step =
        some (kept ++ [⟨step, data history step⟩]) ∧
      ((history.length < maxLength ∧ kept = history) ∨
        (history.length = maxLength ∧
          ∃ index, LeftmostClosest (history ++ [⟨step, data history step⟩]) index ∧
            kept = history.eraseIdx (index + 1))) := by
  rw [recordEntry, List.length_append, List.length_singleton]
  split
  · rename_i long
    have full : history.length = maxLength := by omega
    obtain ⟨index, found, leftmost⟩ := closestEntry_leftmost
      (history ++ [⟨step, data history step⟩])
      (by rw [List.length_append, List.length_singleton]; omega)
    have inner := leftmost.inner
    rw [List.length_append, List.length_singleton] at inner
    have erased : (history ++ [(⟨step, data history step⟩ : HistoryEntry Data)]).eraseIdx
        (index + 1) = history.eraseIdx (index + 1) ++ [⟨step, data history step⟩] :=
      List.eraseIdx_append_of_lt_length (by omega) _
    have length : (history.eraseIdx (index + 1) ++
        [(⟨step, data history step⟩ : HistoryEntry Data)]).length = history.length := by
      rw [List.length_append, List.length_singleton, List.length_eraseIdx_of_lt (by omega)]
      omega
    refine ⟨history.eraseIdx (index + 1), ?_, .inr ⟨full, index, leftmost, rfl⟩⟩
    rw [removeClosestEntry, removeEntries, if_pos (by simp; omega), found]
    dsimp only
    rw [erased, List.length_append, List.length_singleton, removeEntries, if_neg (by omega)]
  · exact ⟨history, rfl, .inl ⟨by omega, rfl⟩⟩

theorem recordEntry_kept (history : List (HistoryEntry Data)) (step : Nat)
    (atLeast : 2 ≤ maxLength) (short : history.length ≤ maxLength) :
    ∃ kept, recordEntry data maxLength history step =
        some (kept ++ [⟨step, data history step⟩]) ∧
      kept.Sublist history ∧ (kept.length : Int) + 1 ≤ maxLength := by
  obtain ⟨kept, recorded, ⟨room, rfl⟩ | ⟨full, index, leftmost, rfl⟩⟩ :=
    recordEntry_some data history step atLeast short
  · exact ⟨kept, recorded, List.Sublist.refl _, by omega⟩
  · have inner := leftmost.inner
    rw [List.length_append, List.length_singleton] at inner
    refine ⟨_, recorded, List.eraseIdx_sublist _ _, ?_⟩
    rw [List.length_eraseIdx_of_lt (by omega)]
    omega

theorem increasing_snoc_iff {history : List (HistoryEntry Data)} (entry : HistoryEntry Data)
    (increasing : Increasing history) :
    Increasing (history ++ [entry]) ↔ ∀ earlier ∈ history, earlier.step < entry.step := by
  rw [Increasing, List.pairwise_append]
  constructor
  · intro given earlier member
    exact given.2.2 earlier member entry List.mem_cons_self
  · intro after
    refine ⟨increasing, List.pairwise_singleton _ _, ?_⟩
    intro earlier member later last
    rw [List.mem_singleton.mp last]
    exact after earlier member

def Reaches (history : List (HistoryEntry Data)) (step : Nat) : Prop :=
  ∃ front last, history = front ++ [last] ∧ step ≤ last.step

theorem gap_snoc (history : List (HistoryEntry Data)) (entry : HistoryEntry Data) (index : Nat)
    (inner : index + 2 < history.length) : gap (history ++ [entry]) index = gap history index := by
  rw [gap, gap, stepAt_append _ _ _ inner, stepAt_append _ _ _ (by omega)]

theorem gap_last (history : List (HistoryEntry Data)) (entry : HistoryEntry Data) (index : Nat)
    (last : index + 2 = history.length) :
    gap (history ++ [entry]) index = (entry.step : Int) - stepAt history index := by
  rw [gap, stepAt_append _ _ index (by omega), last, stepAt_snoc]

/-- The last entry is removed exactly when the new one is the closest to the one before it. -/
theorem closest_last_iff {history : List (HistoryEntry Data)} {entry : HistoryEntry Data}
    {index : Nat} (leftmost : LeftmostClosest (history ++ [entry]) index)
    (two : 2 ≤ history.length) :
    index + 2 = history.length ↔
      ∀ other < history.length - 2, entry.step + stepAt history other <
        stepAt history (other + 2) + stepAt history (history.length - 2) := by
  have inner := leftmost.inner
  rw [List.length_append, List.length_singleton] at inner
  constructor
  · intro last other below
    have closer := leftmost.first other (by omega)
    rw [gap_last _ _ _ last, gap_snoc _ _ _ (by omega), gap] at closer
    rw [← last, Nat.add_sub_cancel]
    omega
  · intro closer
    by_contra earlier
    have farther := leftmost.least (history.length - 2)
      (by rw [List.length_append, List.length_singleton]; omega)
    rw [gap_last history entry (history.length - 2) (by omega),
      gap_snoc _ _ _ (by omega), gap] at farther
    have bound := closer index (by omega)
    omega

theorem last_mem_eraseIdx {front : List (HistoryEntry Data)} {last : HistoryEntry Data}
    {index : Nat} (before : index < front.length) :
    last ∈ (front ++ [last]).eraseIdx index := by
  rw [List.eraseIdx_append_of_lt_length before]
  exact List.mem_append_right _ List.mem_cons_self

theorem all_before_iff {history : List (HistoryEntry Data)} (increasing : Increasing history)
    {step : Nat} (some : 0 < history.length) :
    (∀ earlier ∈ history, earlier.step < step) ↔ stepAt history (history.length - 1) < step := by
  obtain ⟨front, last, rfl⟩ := List.eq_nil_or_concat' history |>.resolve_left
    (List.ne_nil_of_length_pos some)
  rw [List.length_append, List.length_singleton, Nat.add_sub_cancel, stepAt_snoc]
  constructor
  · intro before
    exact before last (List.mem_append_right _ List.mem_cons_self)
  · intro before earlier member
    rcases List.mem_append.mp member with inFront | here
    · have after := (List.pairwise_append.mp increasing).2.2 earlier inFront last
        List.mem_cons_self
      exact Nat.lt_trans after before
    · rw [List.mem_singleton.mp here]
      exact before

/-- A step that the history has reached already is recorded in order exactly when it takes
the place of the last entry. -/
theorem recordEntry_increasing_iff {history next : List (HistoryEntry Data)} {step : Nat}
    (atLeast : 2 ≤ maxLength) (short : history.length ≤ maxLength)
    (increasing : Increasing history) (reaches : Reaches history step)
    (recorded : recordEntry data maxLength history step = some next) :
    Increasing next ↔ Displaced maxLength history step := by
  obtain ⟨front, last, rfl, late⟩ := reaches
  have length : (front ++ [last]).length = front.length + 1 := List.length_append
  obtain ⟨kept, made, ⟨room, rfl⟩ | ⟨full, index, leftmost, rfl⟩⟩ :=
    recordEntry_some data (front ++ [last]) step atLeast short
  · obtain rfl := Option.some.inj (recorded.symm.trans made)
    rw [increasing_snoc_iff _ increasing]
    constructor
    · intro after
      have before := after last (List.mem_append_right _ List.mem_cons_self)
      exact absurd late (Nat.not_le_of_lt before)
    · intro displaced
      exact absurd displaced.1 (by omega)
  · obtain rfl := Option.some.inj (recorded.symm.trans made)
    have two : 2 ≤ (front ++ [last]).length := by omega
    have inner := leftmost.inner
    rw [List.length_append, List.length_singleton] at inner
    rw [increasing_snoc_iff _ (increasing.sublist (List.eraseIdx_sublist _ _))]
    by_cases atEnd : index + 2 = (front ++ [last]).length
    · have erased : (front ++ [last]).eraseIdx (index + 1) = front := by
        rw [List.eraseIdx_append_of_length_le (by omega)]
        simp [show index + 1 - front.length = 0 by omega]
      have ordered : Increasing front := increasing.sublist (List.sublist_append_left _ _)
      rw [erased, all_before_iff ordered (by omega), Displaced, length, Nat.add_sub_add_right,
        stepAt_append _ _ _ (by omega)]
      constructor
      · intro before
        refine ⟨by omega, before, ?_⟩
        have closer := (closest_last_iff leftmost two).mp atEnd
        rw [length, Nat.add_sub_add_right, stepAt_append front _ (front.length - 1) (by omega)]
          at closer
        exact closer
      · intro displaced
        exact displaced.2.1
    · constructor
      · intro after
        have before := after last (last_mem_eraseIdx (by omega))
        exact absurd late (Nat.not_le_of_lt before)
      · intro displaced
        exact absurd ((closest_last_iff leftmost two).mpr displaced.2.2) atEnd

/-- The repeated step 6 takes the place of the one that is there. -/
example : ((recordEntry (fun _ _ => ()) 3 [⟨0, ()⟩, ⟨5, ()⟩, ⟨6, ()⟩] 6).map fun history =>
    history.map HistoryEntry.step) = some [0, 5, 6] := by decide

end Recording

end ScalarLM.Loop
