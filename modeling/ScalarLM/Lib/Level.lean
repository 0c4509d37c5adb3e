import Mathlib.Algebra.BigOperators.Group.List.Basic
import Mathlib.Algebra.Ring.Int.Defs
import Mathlib.Order.Lattice

/-! A level that changes at given times, and its value at any time. -/

namespace ScalarLM.Level

variable {Time : Type}

def level (changes : List (Time × Int)) : Int := (changes.map Prod.snd).sum

theorem level_concat (changes : List (Time × Int)) (last : Time × Int) :
    level (changes ++ [last]) = level changes + last.2 := by
  simp [level]

variable [LinearOrder Time]

def levelAt (changes : List (Time × Int)) (now : Time) : Int :=
  level (changes.filter fun change => change.1 ≤ now)

theorem levelAt_of_le (changes : List (Time × Int)) (now : Time)
    (past : ∀ change ∈ changes, change.1 ≤ now) : levelAt changes now = level changes := by
  have all : (changes.filter fun change => change.1 ≤ now) = changes := by
    apply List.filter_eq_self.mpr
    intro change member
    exact decide_eq_true (past change member)
  rw [levelAt, all]

theorem levelAt_concat_of_lt (changes : List (Time × Int)) (last : Time × Int) (now : Time)
    (before : now < last.1) : levelAt (changes ++ [last]) now = levelAt changes now := by
  have later : ([last].filter fun change => change.1 ≤ now) = [] := by
    simp [before]
  rw [levelAt, List.filter_append, later, List.append_nil, levelAt]

theorem levelAt_concat_of_le (changes : List (Time × Int)) (last : Time × Int) (now : Time)
    (past : ∀ change ∈ changes, change.1 ≤ last.1) (after : last.1 ≤ now) :
    levelAt (changes ++ [last]) now = level changes + last.2 := by
  rw [levelAt_of_le, level_concat]
  intro change member
  rcases List.mem_append.mp member with old | new
  · exact (past change old).trans after
  · rw [List.mem_singleton.mp new]
    exact after

end ScalarLM.Level
