import Mathlib.Data.List.Infix
import ScalarLM.Lib.Decimal

/-! Searching a text for a word in its lines, and for the digits that stand behind a key. -/

namespace ScalarLM.Decimal

def numberAfter (key : List Char) : List Char → Option Nat
  | [] => none
  | char :: rest =>
      let digits := ((char :: rest).drop key.length).takeWhile Char.isDigit
      if key <+: char :: rest ∧ digits ≠ [] then readNat digits else numberAfter key rest

def NoDigitFirst (text : List Char) : Prop := ∀ char, text.head? = some char → char.isDigit = false

theorem takeWhile_toDigits_append (number : Nat) (after : List Char) (ends : NoDigitFirst after) :
    (Nat.toDigits 10 number ++ after).takeWhile Char.isDigit = Nat.toDigits 10 number := by
  rw [List.takeWhile_append_of_pos (isDigit_toDigits number)]
  cases after with
  | nil => rw [List.takeWhile_nil, List.append_nil]
  | cons char rest =>
      rw [List.takeWhile_cons_of_neg, List.append_nil]
      rw [ends char rfl]
      exact Bool.false_ne_true

theorem numberAfter_first (key before after : List Char) (number : Nat) (filled : key ≠ [])
    (first : ¬ key <:+: before ++ key.dropLast) (ends : NoDigitFirst after) :
    numberAfter key (before ++ (key ++ (Nat.toDigits 10 number ++ after))) = some number := by
  induction before with
  | nil =>
      obtain ⟨char, rest, rfl⟩ := List.exists_cons_of_ne_nil filled
      have digits := takeWhile_toDigits_append number after ends
      rw [List.nil_append, List.cons_append, numberAfter, ← List.cons_append]
      rw [List.drop_left, digits, if_pos ⟨List.prefix_append _ _, Nat.toDigits_ne_nil⟩,
        readNat_toDigits]
  | cons char before ih =>
      rw [List.cons_append, numberAfter, if_neg]
      · refine ih fun later => first ?_
        exact later.trans (List.suffix_cons _ _).isInfix
      · intro found
        have short : char :: before ++ key.dropLast <+:
            char :: (before ++ (key ++ (Nat.toDigits 10 number ++ after))) := by
          rw [List.cons_append, List.cons_prefix_cons, List.prefix_append_right_inj]
          exact ⟨rfl, (List.dropLast_prefix key).trans (List.prefix_append _ _)⟩
        have within : key.length ≤ (char :: before ++ key.dropLast).length := by
          rw [List.length_append, List.length_dropLast, List.length_cons]
          omega
        exact first (List.prefix_of_prefix_length_le found.1 short within).isInfix

section Lines

variable {α : Type} {word : List α} {separator : α}

theorem infix_append_separator_iff (absent : separator ∉ word) (filled : word ≠ [])
    (front back : List α) :
    word <:+: front ++ separator :: back ↔ word <:+: front ∨ word <:+: back := by
  have noPrefix (part : List α) (within : ∀ char ∈ part, char ∈ word)
      (first : part <+: separator :: back) : part = [] := by
    cases part with
    | nil => rfl
    | cons char rest =>
        rw [List.cons_prefix_cons] at first
        exact absurd (first.1 ▸ within char List.mem_cons_self) absent
  constructor
  · intro found
    rcases List.infix_append_iff.mp found with inFront | inBack | ⟨left, right, rfl, atEnd, first⟩
    · exact Or.inl inFront
    · rcases List.infix_cons_iff.mp inBack with first | later
      · exact absurd (noPrefix word (fun _ member => member) first) filled
      · exact Or.inr later
    · have empty := noPrefix right (fun _ member => List.mem_append_right _ member) first
      rw [empty, List.append_nil]
      exact Or.inl atEnd.isInfix
  · intro either
    rcases either with inFront | inBack
    · exact inFront.trans (List.prefix_append _ _).isInfix
    · exact inBack.trans ((List.suffix_cons _ _).trans (List.suffix_append _ _)).isInfix

/-- A word is in a text exactly if it is in one of its lines. -/
theorem infix_intercalate_iff (absent : separator ∉ word) (filled : word ≠ [])
    (lines : List (List α)) :
    word <:+: [separator].intercalate lines ↔ ∃ line ∈ lines, word <:+: line := by
  induction lines with
  | nil => simp [filled]
  | cons line rest ih =>
      cases rest with
      | nil => simp
      | cons next rest =>
          have split : [separator].intercalate (line :: next :: rest) =
              line ++ separator :: [separator].intercalate (next :: rest) := by
            simp [List.intercalate]
          rw [split, infix_append_separator_iff absent filled, ih]
          simp

end Lines

end ScalarLM.Decimal
