import Mathlib.Data.List.Nodup
import Mathlib.Tactic.Common

/-! Lists ordered by last use, against the log of all uses. -/

namespace ScalarLM

variable {α : Type}

def UsedAfter (log : List α) (earlier later : α) : Prop :=
  ∃ front back, log = front ++ earlier :: back ∧ earlier ∉ back ∧ later ∈ back

theorem exists_last_use (log : List α) (entry : α) (member : entry ∈ log) :
    ∃ front back, log = front ++ entry :: back ∧ entry ∉ back := by
  induction log with
  | nil => cases member
  | cons head tail ih =>
      by_cases later : entry ∈ tail
      · obtain ⟨front, back, split, last⟩ := ih later
        exact ⟨head :: front, back, by rw [split]; rfl, last⟩
      · obtain rfl := (List.mem_cons.mp member).resolve_right later
        exact ⟨[], tail, rfl, later⟩

theorem usedAfter_append (log : List α) (earlier later used : α)
    (after : UsedAfter log earlier later) (apart : earlier ≠ used) :
    UsedAfter (log ++ [used]) earlier later := by
  obtain ⟨front, back, rfl, last, member⟩ := after
  refine ⟨front, back ++ [used], by simp, ?_, List.mem_append_left _ member⟩
  rw [List.mem_append, not_or]
  exact ⟨last, by simpa using apart⟩

theorem usedAfter_last (log : List α) (earlier used : α) (member : earlier ∈ log)
    (apart : earlier ≠ used) : UsedAfter (log ++ [used]) earlier used := by
  obtain ⟨front, back, rfl, last⟩ := exists_last_use log earlier member
  refine ⟨front, back ++ [used], by simp, ?_, by simp⟩
  rw [List.mem_append, not_or]
  exact ⟨last, by simpa using apart⟩

/-- Appending the entry just used keeps a list of used entries in the order of
their last uses. -/
theorem sorted_append (log order : List α) (used : α)
    (sorted : order.Pairwise (UsedAfter log)) (logged : ∀ entry ∈ order, entry ∈ log)
    (fresh : used ∉ order) : (order ++ [used]).Pairwise (UsedAfter (log ++ [used])) := by
  have apart : ∀ entry ∈ order, entry ≠ used := by
    intro entry member same
    cases same
    exact fresh member
  rw [List.pairwise_append]
  refine ⟨?_, List.pairwise_singleton _ _, ?_⟩
  · exact sorted.imp_of_mem fun earlier _ after =>
      usedAfter_append log _ _ used after (apart _ earlier)
  · intro entry member last single
    obtain rfl := List.mem_singleton.mp single
    exact usedAfter_last log entry last (logged entry member) (apart entry member)

variable [DecidableEq α]

theorem erase_append_last (order : List α) (used : α) (distinct : order.Nodup)
    (last : order.getLast? = some used) : order.erase used ++ [used] = order := by
  obtain ⟨front, rfl⟩ := List.getLast?_eq_some_iff.mp last
  have fresh : used ∉ front := fun member =>
    (List.nodup_append.mp distinct).2.2 used member used List.mem_cons_self rfl
  rw [List.erase_append_right _ fresh, List.erase_cons_head, List.append_nil]

end ScalarLM
