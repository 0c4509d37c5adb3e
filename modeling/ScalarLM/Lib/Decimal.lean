import Mathlib.Data.List.Basic
import Mathlib.Tactic.Common

/-! Decimal numbers in a text: how they are written and read, and the texts around a
separator. -/

namespace ScalarLM.Decimal

def zeroPadded (width number : Nat) : List Char :=
  List.replicate (width - (Nat.toDigits 10 number).length) '0' ++ Nat.toDigits 10 number

def readNat (text : List Char) : Option Nat :=
  if text.isEmpty = false ∧ text.all Char.isDigit then some (Nat.ofDigitChars 10 text 0) else none

def writeInt : Int → List Char
  | .ofNat number => Nat.toDigits 10 number
  | .negSucc number => '-' :: Nat.toDigits 10 (number + 1)

def readInt : List Char → Option Int
  | '-' :: text => (readNat text).map fun number => -(number : Int)
  | text => (readNat text).map Int.ofNat

def rpartition (separator : Char) (text : List Char) : List Char × List Char :=
  (((text.reverse.dropWhile (· != separator)).drop 1).reverse,
    (text.reverse.takeWhile (· != separator)).reverse)

section Reading

theorem isDigit_zeroPadded (width number : Nat) :
    ∀ char ∈ zeroPadded width number, char.isDigit = true := by
  intro char member
  rcases List.mem_append.mp member with padding | digit
  · rw [List.eq_of_mem_replicate padding]
    decide
  · exact Nat.isDigit_of_mem_toDigits (by decide) (by decide) digit

theorem readNat_of_digits (text : List Char) (filled : text ≠ [])
    (digits : ∀ char ∈ text, char.isDigit = true) :
    readNat text = some (Nat.ofDigitChars 10 text 0) := by
  rw [readNat, if_pos]
  exact ⟨List.isEmpty_eq_false_iff.mpr filled, List.all_eq_true.mpr digits⟩

@[simp] theorem readNat_zeroPadded (width number : Nat) :
    readNat (zeroPadded width number) = some number := by
  rw [readNat_of_digits _ _ (isDigit_zeroPadded width number), zeroPadded,
    Nat.ofDigitChars_append, Nat.ofDigitChars_replicate_zero, Nat.mul_zero,
    Nat.ofDigitChars_ten_toDigits]
  exact List.append_ne_nil_of_right_ne_nil _ Nat.toDigits_ne_nil

@[simp] theorem readNat_toDigits (number : Nat) :
    readNat (Nat.toDigits 10 number) = some number := by
  have unpadded : zeroPadded 0 number = Nat.toDigits 10 number := by
    rw [zeroPadded, Nat.zero_sub]
    rfl
  rw [← unpadded, readNat_zeroPadded]

theorem isDigit_toDigits (number : Nat) (char : Char) (member : char ∈ Nat.toDigits 10 number) :
    char.isDigit = true :=
  Nat.isDigit_of_mem_toDigits (by decide) (by decide) member

theorem readInt_of_digits (text : List Char) (digits : ∀ char ∈ text, char.isDigit = true) :
    readInt text = (readNat text).map Int.ofNat := by
  rw [readInt]
  intro rest same
  rw [same, List.forall_mem_cons] at digits
  exact absurd digits.1 (by decide)

@[simp] theorem readInt_writeInt (number : Int) : readInt (writeInt number) = some number := by
  cases number with
  | ofNat number =>
      rw [writeInt, readInt_of_digits _ (isDigit_toDigits number), readNat_toDigits]
      rfl
  | negSucc number =>
      rw [writeInt, readInt, readNat_toDigits]
      rfl

theorem not_mem_of_digits (separator : Char) (apart : separator.isDigit = false)
    (text : List Char) (digits : ∀ char ∈ text, char.isDigit = true) : separator ∉ text := by
  intro member
  rw [digits separator member] at apart
  cases apart

theorem not_mem_writeInt (separator : Char) (apart : separator.isDigit = false)
    (unsigned : separator ≠ '-') (number : Int) : separator ∉ writeInt number := by
  cases number with
  | ofNat number => exact not_mem_of_digits separator apart _ (isDigit_toDigits number)
  | negSucc number =>
      rw [writeInt, List.mem_cons]
      intro member
      rcases member with same | later
      · exact unsigned same
      · exact not_mem_of_digits separator apart _ (isDigit_toDigits (number + 1)) later

theorem rpartition_append (separator : Char) (front back : List Char) (absent : separator ∉ back) :
    rpartition separator (front ++ separator :: back) = (front, back) := by
  have apart : ∀ char ∈ back.reverse, (char != separator) = true := by
    intro char member
    rw [bne_iff_ne]
    intro same
    exact absent (same ▸ List.mem_reverse.mp member)
  rw [rpartition, List.reverse_append, List.reverse_cons, List.append_assoc,
    List.takeWhile_append_of_pos apart, List.dropWhile_append_of_pos apart]
  simp

end Reading

end ScalarLM.Decimal
