import Mathlib.Data.List.Basic

/-! Bounds of a dynamic-language list slice. A negative bound counts from the
end, and a bound outside the list is clamped to it. -/

namespace ScalarLM.Slice

variable {α : Type}

def sliceTo (xs : List α) (stop : Int) : List α :=
  xs.take (if stop < 0 then xs.length - stop.natAbs else stop.toNat)

theorem sliceTo_ofNat (xs : List α) (stop : Nat) : sliceTo xs stop = xs.take stop := by
  have sign : ¬ (stop : Int) < 0 := by omega
  rw [sliceTo, if_neg sign, Int.toNat_natCast]

/-- Cutting a positive number of entries off the end. At zero the two notions
part: the slice `xs[:-0]` is empty. -/
theorem sliceTo_neg (xs : List α) (count : Nat) (positive : 0 < count) :
    sliceTo xs (-(count : Int)) = xs.take (xs.length - count) := by
  have sign : -(count : Int) < 0 := by omega
  rw [sliceTo, if_pos sign, Int.natAbs_neg, Int.natAbs_natCast]

theorem sliceTo_length (xs : List α) (stop : Int) :
    (sliceTo xs stop).length =
      min (if stop < 0 then xs.length - stop.natAbs else stop.toNat) xs.length := by
  rw [sliceTo, List.length_take]

/-- A nonempty list survives a slice whole exactly when the bound is at least
its length. -/
theorem sliceTo_length_eq_iff (xs : List α) (stop : Int) (nonempty : xs ≠ []) :
    (sliceTo xs stop).length = xs.length ↔ (xs.length : Int) ≤ stop := by
  have positive : 0 < xs.length := List.length_pos_iff.mpr nonempty
  rw [sliceTo_length]
  split <;> omega

def sliceFrom (xs : List α) (start : Int) : List α :=
  xs.drop (if start < 0 then xs.length - start.natAbs else start.toNat)

theorem sliceFrom_neg (xs : List α) (count : Nat) (positive : 0 < count) :
    sliceFrom xs (-(count : Int)) = xs.drop (xs.length - count) := by
  have sign : -(count : Int) < 0 := by omega
  rw [sliceFrom, if_pos sign, Int.natAbs_neg, Int.natAbs_natCast]

end ScalarLM.Slice
