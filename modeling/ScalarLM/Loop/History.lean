import Mathlib.Data.List.Basic
import Mathlib.Tactic.Common

/-! The training history and how it is kept short. -/

namespace ScalarLM.Loop

/-- One entry; its loss, epoch and time are read by no operation on the history. -/
structure HistoryEntry (Data : Type) where
  step : Nat
  data : Data

variable {Data : Type}

def closestFrom : Nat → Option (Int × Nat) → List (HistoryEntry Data) → Option (Int × Nat)
  | index, best, before :: entry :: after :: rest =>
      let diff := (after.step : Int) - before.step
      let next :=
        match best with
        | none => some (diff, index)
        | some (minDiff, minIndex) =>
            if diff < minDiff then some (diff, index) else some (minDiff, minIndex)
      closestFrom (index + 1) next (entry :: after :: rest)
  | _, best, _ => best

def closestEntry (history : List (HistoryEntry Data)) : Option Nat :=
  (closestFrom 1 none history).map Prod.snd

/-- The rounds of `remove_closest_entry`; without an inner entry `pop(None)` raises. -/
def removeEntries (maxLength : Int) :
    Nat → List (HistoryEntry Data) → Option (List (HistoryEntry Data))
  | 0, history => some history
  | rounds + 1, history =>
      if maxLength < history.length then
        match closestEntry history with
        | none => none
        | some index => removeEntries maxLength rounds (history.eraseIdx index)
      else some history

def removeClosestEntry (maxLength : Int) (history : List (HistoryEntry Data)) :
    Option (List (HistoryEntry Data)) :=
  removeEntries maxLength (history.length + 1) history

theorem closestFrom_some (index : Nat) (minDiff : Int) (minIndex : Nat)
    (history : List (HistoryEntry Data)) :
    ∃ diff found, closestFrom index (some (minDiff, minIndex)) history = some (diff, found) ∧
      (found = minIndex ∨ (index ≤ found ∧ found + 2 < index + history.length)) := by
  induction history generalizing index minDiff minIndex with
  | nil => exact ⟨minDiff, minIndex, rfl, .inl rfl⟩
  | cons before rest ih =>
      match rest, ih with
      | [], _ => exact ⟨minDiff, minIndex, rfl, .inl rfl⟩
      | [_], _ => exact ⟨minDiff, minIndex, rfl, .inl rfl⟩
      | entry :: after :: rest, ih =>
          rw [closestFrom]
          split
          · obtain ⟨diff, found, result, place⟩ :=
              ih (index + 1) ((after.step : Int) - before.step) index
            refine ⟨diff, found, result, .inr ?_⟩
            simp only [List.length_cons] at place ⊢
            omega
          · obtain ⟨diff, found, result, place⟩ := ih (index + 1) minDiff minIndex
            refine ⟨diff, found, result, ?_⟩
            simp only [List.length_cons] at place ⊢
            omega

theorem closestEntry_cases (history : List (HistoryEntry Data)) :
    (closestEntry history = none ∧ history.length ≤ 2) ∨
      ∃ index, closestEntry history = some index ∧ 0 < index ∧ index + 1 < history.length := by
  match history with
  | [] => exact .inl ⟨rfl, by simp⟩
  | [_] => exact .inl ⟨rfl, by simp⟩
  | [_, _] => exact .inl ⟨rfl, by simp⟩
  | before :: entry :: after :: rest =>
      obtain ⟨diff, found, result, place⟩ :=
        closestFrom_some 2 ((after.step : Int) - before.step) 1 (entry :: after :: rest)
      refine .inr ⟨found, ?_, ?_⟩
      · rw [closestEntry, closestFrom, result]
        rfl
      · simp only [List.length_cons] at place ⊢
        omega

theorem removeEntries_none_iff (maxLength : Int) (rounds : Nat)
    (history : List (HistoryEntry Data)) (enough : history.length < rounds) :
    removeEntries maxLength rounds history = none ↔
      maxLength < 2 ∧ maxLength < history.length := by
  induction rounds generalizing history with
  | zero => omega
  | succ rounds ih =>
      rw [removeEntries]
      split
      · rcases closestEntry_cases history with ⟨missing, short⟩ | ⟨index, found, inner, bound⟩
        · rw [missing]
          simp only [true_iff]
          omega
        · have shorter : (history.eraseIdx index).length = history.length - 1 :=
            List.length_eraseIdx_of_lt (by omega)
          rw [found]
          dsimp only
          rw [ih _ (by omega), shorter]
          omega
      · simp only [reduceCtorEq, false_iff]
        omega

/-- A limit of two entries or more is always reached; with a smaller one the loop gets
down to two entries and finds none between them. -/
theorem removeClosestEntry_none_iff (maxLength : Int) (history : List (HistoryEntry Data)) :
    removeClosestEntry maxLength history = none ↔
      maxLength < 2 ∧ maxLength < history.length :=
  removeEntries_none_iff maxLength _ history (Nat.lt_succ_self _)

end ScalarLM.Loop
