import Mathlib.Data.Multiset.AddSub
import Mathlib.Data.Multiset.Dedup
import Mathlib.Data.List.Nodup
import Mathlib.Data.List.Perm.Subperm
import Mathlib.Tactic.Common

/-! Pools of ids whose references are counted. -/

namespace ScalarLM

section Books

variable {ι : Type} [DecidableEq ι]

/-- The books of a pool: `held` are the references that are out, `count` is what is noted
of them, and the free ids are those that nothing refers to. References to ids of other
pools may be among `held`. -/
structure References (all free : List ι) (count : ι → Option Nat) (held : Multiset ι) :
    Prop where
  noted : ∀ id ∈ all, count id = some (held.count id)
  strange : ∀ id, id ∉ all → count id = none
  once : free.Nodup
  mem_free : ∀ id, id ∈ free ↔ id ∈ all ∧ id ∉ held

namespace References

variable {all free : List ι} {count : ι → Option Nat} {held : Multiset ι}

theorem unused (once : all.Nodup) (count : ι → Option Nat)
    (zero : ∀ id, count id = if id ∈ all then some 0 else none) :
    References all all count 0 where
  noted id member := by simp [zero, member]
  strange id strange := by simp [zero, strange]
  once := once
  mem_free id := by simp

theorem congr (books : References all free count held) {other : Multiset ι}
    (same : ∀ id ∈ all, other.count id = held.count id) : References all free count other where
  noted id member := by rw [books.noted id member, same id member]
  strange := books.strange
  once := books.once
  mem_free id := by
    rw [books.mem_free]
    refine and_congr_right fun member => ?_
    rw [← Multiset.count_eq_zero, ← Multiset.count_eq_zero, same id member]

theorem take {id : ι} {rest : List ι} (books : References all (id :: rest) count held)
    {count' : ι → Option Nat}
    (noted : ∀ other, count' other = if other = id then some 1 else count other) :
    References all rest count' (id ::ₘ held) := by
  have fresh := (books.mem_free id).mp List.mem_cons_self
  have once := List.nodup_cons.mp books.once
  refine ⟨?_, ?_, once.2, ?_⟩
  · intro other member
    rw [noted, Multiset.count_cons]
    split
    · rename_i same
      rw [same, Multiset.count_eq_zero.mpr fresh.2]
    · rw [books.noted other member]
      rfl
  · intro other absent
    have apart : other ≠ id := (ne_of_mem_of_not_mem fresh.1 absent).symm
    rw [noted, if_neg apart, books.strange other absent]
  · intro other
    rw [Multiset.mem_cons, not_or]
    constructor
    · intro member
      have listed := (books.mem_free other).mp (List.mem_cons_of_mem _ member)
      exact ⟨listed.1, fun same => once.1 (same ▸ member), listed.2⟩
    · intro given
      have listed := (books.mem_free other).mpr ⟨given.1, given.2.2⟩
      exact (List.mem_cons.mp listed).resolve_left given.2.1

theorem share (books : References all free count held) {id : ι} (within : id ∈ all)
    (used : id ∈ held) {count' : ι → Option Nat}
    (noted : ∀ other, count' other = if other = id then some (held.count id + 1)
      else count other) :
    References all free count' (id ::ₘ held) := by
  refine ⟨?_, ?_, books.once, ?_⟩
  · intro other member
    rw [noted, Multiset.count_cons]
    split
    · rename_i same
      rw [same]
    · rw [books.noted other member]
      rfl
  · intro other absent
    have apart : other ≠ id := (ne_of_mem_of_not_mem within absent).symm
    rw [noted, if_neg apart, books.strange other absent]
  · intro other
    rw [books.mem_free, Multiset.mem_cons, not_or]
    refine and_congr_right fun _ => ?_
    constructor
    · exact fun unused => ⟨fun same => unused (same ▸ used), unused⟩
    · exact And.right

theorem release {id : ι} (books : References all free count (id ::ₘ held))
    (within : id ∈ all) {count' : ι → Option Nat}
    (noted : ∀ other, count' other = if other = id then some (held.count id)
      else count other) :
    References all (if held.count id = 0 then id :: free else free) count' held := by
  have busy : id ∉ free := fun member =>
    ((books.mem_free id).mp member).2 (Multiset.mem_cons_self id held)
  refine ⟨?_, ?_, ?_, ?_⟩
  · intro other member
    rw [noted]
    split
    · rename_i same
      rw [same]
    · rename_i different
      rw [books.noted other member, Multiset.count_cons_of_ne different]
  · intro other absent
    have apart : other ≠ id := (ne_of_mem_of_not_mem within absent).symm
    rw [noted, if_neg apart, books.strange other absent]
  · split
    · exact List.nodup_cons.mpr ⟨busy, books.once⟩
    · exact books.once
  · intro other
    by_cases same : other = id
    · subst same
      split
      · rename_i none
        simp [within, Multiset.count_eq_zero.mp none]
      · rename_i some
        have still : other ∈ held := Multiset.count_ne_zero.mp some
        simp [busy, still]
    · have listed := books.mem_free other
      rw [Multiset.mem_cons, not_or] at listed
      split
      · rw [List.mem_cons, or_iff_right same, listed]
        exact and_congr_right fun _ => and_iff_right same
      · rw [listed]
        exact and_congr_right fun _ => and_iff_right same

end References

end Books

end ScalarLM
