import Mathlib.Data.List.Perm.Basic

/-! A list that is dealt out in three, in order. -/

namespace ScalarLM

inductive Dealt {α : Type} : List α → List α → List α → List α → Prop where
  | nil : Dealt [] [] [] []
  | take {all taken dropped skipped : List α} (member : α) :
      Dealt all taken dropped skipped → Dealt (member :: all) (member :: taken) dropped skipped
  | drop {all taken dropped skipped : List α} (member : α) :
      Dealt all taken dropped skipped → Dealt (member :: all) taken (member :: dropped) skipped
  | skip {all taken dropped skipped : List α} (member : α) :
      Dealt all taken dropped skipped → Dealt (member :: all) taken dropped (member :: skipped)

namespace Dealt

variable {α : Type} {all taken dropped skipped : List α}

theorem perm (dealt : Dealt all taken dropped skipped) :
    all.Perm (taken ++ dropped ++ skipped) := by
  induction dealt with
  | nil => exact .nil
  | take member _ ih => exact ih.cons member
  | @drop _ taken dropped skipped member _ ih =>
      rw [List.append_assoc, List.cons_append]
      refine (ih.cons member).trans ?_
      rw [List.append_assoc]
      exact List.perm_middle.symm
  | skip member _ ih => exact (ih.cons member).trans List.perm_middle.symm

theorem taken_sublist (dealt : Dealt all taken dropped skipped) : taken.Sublist all := by
  induction dealt with
  | nil => exact .refl _
  | take member _ ih => exact ih.cons_cons member
  | drop member _ ih => exact ih.cons member
  | skip member _ ih => exact ih.cons member

end Dealt

end ScalarLM
