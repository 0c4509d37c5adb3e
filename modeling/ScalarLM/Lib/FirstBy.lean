import Mathlib.Data.List.Basic
import Mathlib.Tactic.Common

/-! Keeping the first entry of each identity, as a walk with a set of seen
objects does. -/

namespace ScalarLM

variable {α ι : Type} [DecidableEq ι]

def firstBy (identity : α → ι) : List ι → List α → List α
  | _, [] => []
  | seen, entry :: rest =>
      if identity entry ∈ seen then firstBy identity seen rest
      else entry :: firstBy identity (identity entry :: seen) rest

theorem mem_firstBy (identity : α → ι) (seen : List ι) (entries : List α) (entry : α) :
    entry ∈ firstBy identity seen entries ↔
      identity entry ∉ seen ∧
        ∃ front back, entries = front ++ entry :: back ∧
          identity entry ∉ front.map identity := by
  induction entries generalizing seen with
  | nil => simp [firstBy]
  | cons head tail ih =>
      by_cases known : identity head ∈ seen
      · rw [firstBy, if_pos known, ih]
        refine and_congr_right fun fresh => ⟨?_, ?_⟩
        · intro given
          rcases given with ⟨front, back, rfl, first⟩
          refine ⟨head :: front, back, rfl, ?_⟩
          rw [List.map_cons, List.mem_cons, not_or]
          exact ⟨fun same => fresh (same ▸ known), first⟩
        · intro given
          rcases given with ⟨front, back, split, first⟩
          cases front with
          | nil =>
              rw [List.nil_append, List.cons.injEq] at split
              exact absurd (split.1 ▸ known) fresh
          | cons other front =>
              rw [List.cons_append, List.cons.injEq] at split
              exact ⟨front, back, split.2, fun member => first (List.mem_cons_of_mem _ member)⟩
      · rw [firstBy, if_neg known, List.mem_cons, ih]
        constructor
        · intro either
          rcases either with rfl | ⟨fresh, front, back, rfl, first⟩
          · exact ⟨known, [], tail, rfl, List.not_mem_nil⟩
          · rw [List.mem_cons, not_or] at fresh
            refine ⟨fresh.2, head :: front, back, rfl, ?_⟩
            rw [List.map_cons, List.mem_cons, not_or]
            exact ⟨fresh.1, first⟩
        · intro given
          rcases given with ⟨fresh, front, back, split, first⟩
          cases front with
          | nil =>
              rw [List.nil_append, List.cons.injEq] at split
              exact Or.inl split.1.symm
          | cons other front =>
              rw [List.cons_append, List.cons.injEq] at split
              rw [List.map_cons, List.mem_cons, not_or, ← split.1] at first
              refine Or.inr ⟨?_, front, back, split.2, first.2⟩
              rw [List.mem_cons, not_or]
              exact ⟨first.1, fresh⟩

theorem firstBy_sublist (identity : α → ι) (seen : List ι) (entries : List α) :
    (firstBy identity seen entries).Sublist entries := by
  induction entries generalizing seen with
  | nil => exact List.Sublist.refl []
  | cons head tail ih =>
      rw [firstBy]
      split
      · exact (ih seen).cons head
      · exact (ih _).cons_cons head

theorem firstBy_subset (identity : α → ι) (seen : List ι) (entries : List α) :
    ∀ entry ∈ firstBy identity seen entries, entry ∈ entries :=
  fun _ member => (firstBy_sublist identity seen entries).subset member

theorem not_mem_firstBy (identity : α → ι) (entries front back : List α) (entry : α)
    (distinct : entries.Nodup) (split : entries = front ++ entry :: back)
    (earlier : identity entry ∈ front.map identity) : entry ∉ firstBy identity [] entries := by
  intro kept
  obtain ⟨_, front', back', split', first⟩ := (mem_firstBy identity [] entries entry).mp kept
  rw [split] at distinct
  obtain ⟨_, ⟨lastOne, _⟩, apart⟩ :=
    List.nodup_append.mp distinct |>.imp id (And.imp List.nodup_cons.mp id)
  have firstOne : entry ∉ front := fun member => apart entry member entry List.mem_cons_self rfl
  have same := (List.append_cons_inj_of_notMem firstOne lastOne).mp (split.symm.trans split')
  exact first (same.1 ▸ earlier)

theorem nodup_map_firstBy (identity : α → ι) (seen : List ι) (entries : List α) :
    ((firstBy identity seen entries).map identity).Nodup := by
  induction entries generalizing seen with
  | nil => exact List.nodup_nil
  | cons head tail ih =>
      rw [firstBy]
      split
      · exact ih seen
      · rw [List.map_cons, List.nodup_cons]
        refine ⟨?_, ih _⟩
        intro again
        obtain ⟨entry, kept, same⟩ := List.mem_map.mp again
        have fresh := ((mem_firstBy identity _ tail entry).mp kept).1
        exact fresh (same ▸ List.mem_cons_self)

theorem exists_firstBy (identity : α → ι) (seen : List ι) (entries : List α) (entry : α)
    (member : entry ∈ entries) (fresh : identity entry ∉ seen) :
    ∃ first ∈ firstBy identity seen entries, identity first = identity entry := by
  induction entries generalizing seen with
  | nil => cases member
  | cons head tail ih =>
      by_cases known : identity head ∈ seen
      · have later : entry ∈ tail := by
          rcases List.mem_cons.mp member with rfl | later
          · exact absurd known fresh
          · exact later
        rw [firstBy, if_pos known]
        exact ih seen later fresh
      · rw [firstBy, if_neg known]
        by_cases same : identity head = identity entry
        · exact ⟨head, List.mem_cons_self, same⟩
        · have later : entry ∈ tail := by
            rcases List.mem_cons.mp member with rfl | later
            · exact absurd rfl same
            · exact later
          have unseen : identity entry ∉ identity head :: seen := by
            rw [List.mem_cons, not_or]
            exact ⟨Ne.symm same, fresh⟩
          obtain ⟨first, kept, image⟩ := ih (identity head :: seen) later unseen
          exact ⟨first, List.mem_cons_of_mem _ kept, image⟩

end ScalarLM
