import ScalarLM.Lib.Blocks

/-! Lists whose values change only at multiples of a size. -/

namespace ScalarLM.Runs

open Blocks

variable {α κ : Type}

/-- Each item takes up some places. Where the next one has another key, the places so
far are a multiple of the size. -/
def ChangesAtMultiples (size : Nat) (weight : α → Nat) (key : α → κ) : Nat → List α → Prop
  | places, item :: next :: rest =>
      (key item = key next ∨ size ∣ places + weight item) ∧
        ChangesAtMultiples size weight key (places + weight item) (next :: rest)
  | _, _ => True

section Weighted

variable (size : Nat) (weight : α → Nat) (key : α → κ)

theorem changesAtMultiples_iff (places : Nat) (items : List α) :
    ChangesAtMultiples size weight key places items ↔
      ∀ front item next back, items = front ++ item :: next :: back →
        key item = key next ∨ size ∣ places + ((front ++ [item]).map weight).sum := by
  induction items generalizing places with
  | nil =>
      refine iff_of_true trivial ?_
      intro front item next back split
      exact absurd split.symm (List.append_ne_nil_of_right_ne_nil _ (List.cons_ne_nil _ _))
  | cons first rest ih =>
      cases rest with
      | nil =>
          refine iff_of_true trivial ?_
          intro front item next back split
          have length := congrArg List.length split
          simp only [List.length_append, List.length_cons, List.length_nil] at length
          omega
      | cons second rest =>
          rw [ChangesAtMultiples, ih]
          constructor
          · intro ⟨here, later⟩ front item next back split
            cases front with
            | nil =>
                simp only [List.nil_append, List.cons.injEq] at split
                obtain ⟨rfl, rfl, -⟩ := split
                simpa using here
            | cons other front =>
                simp only [List.cons_append, List.cons.injEq] at split
                obtain ⟨rfl, split⟩ := split
                rw [List.cons_append, List.map_cons, List.sum_cons, ← Nat.add_assoc]
                exact later front item next back split
          · intro given
            refine ⟨by simpa using given [] first second rest rfl, ?_⟩
            intro front item next back split
            have here := given (first :: front) item next back (by rw [split]; rfl)
            rwa [List.cons_append, List.map_cons, List.sum_cons, ← Nat.add_assoc] at here

end Weighted

/-- The items with their values one by one. -/
abbrev Steady (size : Nat) (places : Nat) (xs : List κ) : Prop :=
  ChangesAtMultiples size (fun _ => 1) id places xs

theorem steady_replicate_append (size places count : Nat) (x : κ) (xs : List κ) :
    Steady size places (List.replicate (count + 1) x ++ xs) ↔
      Steady size (places + count) (x :: xs) := by
  induction count generalizing places with
  | zero => rfl
  | succ count ih =>
      rw [show places + (count + 1) = places + 1 + count by omega, ← ih (places + 1),
        List.replicate_succ, List.cons_append, List.replicate_succ, List.cons_append, Steady,
        ChangesAtMultiples]
      exact and_iff_right (Or.inl rfl)

theorem steady_flatMap_iff (size : Nat) (weight : α → Nat) (key : α → κ) (places : Nat)
    (items : List α) (positive : ∀ item ∈ items, 0 < weight item) :
    Steady size places (items.flatMap fun item => List.replicate (weight item) (key item)) ↔
      ChangesAtMultiples size weight key places items := by
  induction items generalizing places with
  | nil => rfl
  | cons item rest ih =>
      obtain ⟨count, own⟩ := Nat.exists_eq_succ_of_ne_zero (positive item List.mem_cons_self).ne'
      have later := ih (places + weight item) fun other member =>
        positive other (List.mem_cons_of_mem _ member)
      rw [List.flatMap_cons, own, steady_replicate_append]
      cases rest with
      | nil => exact Iff.rfl
      | cons next rest =>
          obtain ⟨more, following⟩ := Nat.exists_eq_succ_of_ne_zero
            (positive next (List.mem_cons_of_mem _ List.mem_cons_self)).ne'
          rw [List.flatMap_cons, following, List.replicate_succ, List.cons_append] at later ⊢
          rw [Steady, ChangesAtMultiples, ChangesAtMultiples, ← later, own]
          rfl

theorem steady_iff_getElem? (size places : Nat) (xs : List κ) :
    Steady size places xs ↔ ∀ index x y, xs[index]? = some x → xs[index + 1]? = some y →
      x = y ∨ size ∣ places + index + 1 := by
  induction xs generalizing places with
  | nil => exact iff_of_true trivial fun _ _ _ found => absurd found (by simp)
  | cons first rest ih =>
      cases rest with
      | nil => exact iff_of_true trivial fun _ _ _ _ found => absurd found (by simp)
      | cons second rest =>
          change (first = second ∨ size ∣ places + 1) ∧
            Steady size (places + 1) (second :: rest) ↔ _
          rw [ih]
          constructor
          · intro ⟨here, later⟩ index x y found next
            cases index with
            | zero =>
                rw [List.getElem?_cons_zero, Option.some.injEq] at found
                rw [List.getElem?_cons_succ, List.getElem?_cons_zero, Option.some.injEq] at next
                subst found next
                exact here
            | succ index =>
                rw [List.getElem?_cons_succ] at found next
                rw [show places + (index + 1) + 1 = places + 1 + index + 1 by omega]
                exact later index x y found next
          · intro given
            refine ⟨given 0 first second rfl rfl, ?_⟩
            intro index x y found next
            rw [show places + 1 + index + 1 = places + (index + 1) + 1 by omega]
            exact given (index + 1) x y found next

theorem steady_within_piece {size : Nat} {xs : List κ} (steady : Steady size 0 xs)
    (start place : Nat) (within : place < size) (x z : κ)
    (found : xs[start * size + place]? = some x)
    (first : xs[start * size]? = some z) : x = z := by
  induction place generalizing x with
  | zero =>
      rw [Nat.add_zero, first, Option.some.injEq] at found
      exact found.symm
  | succ place ih =>
      have bound := (List.getElem?_eq_some_iff.mp found).1
      have here : xs[start * size + place]? = some xs[start * size + place] :=
        List.getElem?_eq_getElem _
      have same := (steady_iff_getElem? size 0 xs).mp steady (start * size + place) _ x here found
      rw [← ih (by omega) _ here]
      rcases same with same | divides
      · exact same.symm
      · rw [Nat.zero_add, Nat.add_assoc] at divides
        have passes := (Nat.dvd_add_right (Nat.dvd_mul_left size start)).mp divides
        exact absurd (Nat.le_of_dvd (Nat.succ_pos place) passes) (by omega)

section Pieces

variable {size : Nat} (positive : 0 < size) (xs : List κ)

include positive

theorem neighbours_mem_piece (index : Nat) (x y : κ) (found : xs[index]? = some x)
    (next : xs[index + 1]? = some y) (inside : ¬ size ∣ index + 1) :
    ∃ piece ∈ pieces size xs.length xs, x ∈ piece ∧ y ∈ piece := by
  have rest := Nat.div_add_mod index size
  have below := Nat.mod_lt index positive
  have start : index / size * size ≤ index := Nat.div_mul_le_self index size
  rw [Nat.mul_comm] at rest
  have within : index % size + 1 < size := by
    by_contra ends
    apply inside
    have last : index % size + 1 = size := by omega
    exact ⟨index / size + 1, by rw [Nat.mul_succ, Nat.mul_comm]; omega⟩
  have bound := (List.getElem?_eq_some_iff.mp found).1
  refine ⟨block size xs (index / size), List.mem_map_of_mem (List.mem_range.mpr ?_), ?_, ?_⟩
  · apply (Nat.le_div_iff_mul_le positive).mpr
    rw [Nat.succ_mul]
    omega
  · apply List.mem_of_getElem? (i := index % size)
    rw [block, List.getElem?_take_of_lt below, List.getElem?_drop, rest, found]
  · apply List.mem_of_getElem? (i := index % size + 1)
    rw [block, List.getElem?_take_of_lt within, List.getElem?_drop, ← Nat.add_assoc, rest, next]

/-- A list falls into pieces of one value each exactly when it changes only between
pieces. -/
theorem pieces_constant_iff :
    (∀ piece ∈ pieces size xs.length xs, ∀ x ∈ piece, ∀ y ∈ piece, x = y) ↔
      Steady size 0 xs := by
  constructor
  · intro constant
    rw [steady_iff_getElem?]
    intro index x y found next
    by_cases divides : size ∣ index + 1
    · exact Or.inr (by rwa [Nat.zero_add])
    · obtain ⟨piece, member, left, right⟩ :=
        neighbours_mem_piece positive xs index x y found next divides
      exact Or.inl (constant piece member x left y right)
  · intro steady piece member
    obtain ⟨start, -, rfl⟩ := List.mem_map.mp member
    have settled : ∀ x ∈ block size xs start, ∃ z, xs[start * size]? = some z ∧ x = z := by
      intro x inside
      obtain ⟨place, found⟩ := List.getElem?_of_mem inside
      have below : place < size := by
        have bound := (List.getElem?_eq_some_iff.mp found).1
        rw [block, List.length_take] at bound
        omega
      rw [block, List.getElem?_take_of_lt below, List.getElem?_drop] at found
      have bound := (List.getElem?_eq_some_iff.mp found).1
      have first : xs[start * size]? = some xs[start * size] := List.getElem?_eq_getElem _
      exact ⟨_, first, steady_within_piece steady start place below x _ found first⟩
    intro x left y right
    obtain ⟨z, first, rfl⟩ := settled x left
    obtain ⟨w, again, rfl⟩ := settled y right
    rw [first, Option.some.injEq] at again
    exact again

end Pieces

end ScalarLM.Runs
