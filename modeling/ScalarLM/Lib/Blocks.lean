import Mathlib.Algebra.BigOperators.Group.List.Basic
import Mathlib.Algebra.BigOperators.Ring.List
import Mathlib.Data.List.Basic
import Mathlib.Tactic.Ring

/-! Lists cut into equal blocks, and their inner products. -/

namespace ScalarLM.Blocks

section Cut

variable {α : Type}

def block (size : Nat) (xs : List α) (index : Nat) : List α :=
  (xs.drop (index * size)).take size

def join (count : Nat) (blocks : Nat → List α) : List α :=
  (List.range count).flatMap blocks

@[simp] theorem join_zero (blocks : Nat → List α) : join 0 blocks = [] := rfl

theorem join_succ (count : Nat) (blocks : Nat → List α) :
    join (count + 1) blocks = join count blocks ++ blocks count := by
  simp [join, List.range_succ]

theorem join_congr (count : Nat) (left right : Nat → List α)
    (agree : ∀ index, index < count → left index = right index) :
    join count left = join count right :=
  List.flatMap_congr fun index member => agree index (List.mem_range.mp member)

theorem join_length (size count : Nat) (blocks : Nat → List α)
    (sized : ∀ index, index < count → (blocks index).length = size) :
    (join count blocks).length = count * size := by
  induction count with
  | zero => simp
  | succ count ih =>
      have earlier := ih (fun index bound => sized index (by omega))
      rw [join_succ, List.length_append, earlier, sized count (by omega), Nat.succ_mul]

theorem map_join {β : Type} (f : α → β) (count : Nat) (blocks : Nat → List α) :
    (join count blocks).map f = join count (fun index => (blocks index).map f) := by
  simp [join, List.map_flatMap]

theorem join_take (size count : Nat) (blocks : Nat → List α)
    (sized : ∀ index, index < count → (blocks index).length = size)
    (index : Nat) (bound : index ≤ count) :
    (join count blocks).take (index * size) = join index blocks := by
  induction count with
  | zero =>
      have same : index = 0 := by omega
      simp [same]
  | succ count ih =>
      have earlier : ∀ index, index < count → (blocks index).length = size :=
        fun index below => sized index (by omega)
      rcases Nat.lt_or_ge count index with last | inside
      · have same : index = count + 1 := by omega
        rw [same]
        exact List.take_of_length_le (by rw [join_length size _ blocks sized])
      · have reach : index * size ≤ count * size := Nat.mul_le_mul_right size inside
        rw [join_succ, List.take_append_of_le_length, ih earlier inside]
        rwa [join_length size count blocks earlier]

theorem block_join (size count : Nat) (blocks : Nat → List α)
    (sized : ∀ index, index < count → (blocks index).length = size)
    (index : Nat) (bound : index < count) :
    block size (join count blocks) index = blocks index := by
  have here := sized index bound
  have before : (join index blocks).length = index * size :=
    join_length size index blocks (fun i below => sized i (by omega))
  have upto : (join count blocks).take ((index + 1) * size) =
      join index blocks ++ blocks index := by
    rw [join_take size count blocks sized (index + 1) (by omega), join_succ]
  calc
    block size (join count blocks) index =
        ((join count blocks).take ((index + 1) * size)).drop (index * size) := by
      rw [block, List.drop_take]
      congr 1
      rw [Nat.succ_mul]
      omega
    _ = blocks index := by rw [upto, ← before, List.drop_left]

theorem join_block (size count : Nat) (xs : List α) :
    join count (block size xs) = xs.take (count * size) := by
  induction count with
  | zero => simp
  | succ count ih => rw [join_succ, ih, block, Nat.succ_mul, List.take_add]

theorem block_length (size count : Nat) (xs : List α) (covers : xs.length = count * size)
    (index : Nat) (bound : index < count) : (block size xs index).length = size := by
  have room : (index + 1) * size ≤ count * size := Nat.mul_le_mul_right size bound
  rw [Nat.succ_mul] at room
  rw [block, List.length_take, List.length_drop, covers]
  omega

theorem join_block_map {β : Type} (size count : Nat) (xs : List α) (f : Nat → α → β) :
    join count (fun index => (block size xs index).map (f index)) =
      (xs.take (count * size)).mapIdx fun position entry => f (position / size) entry := by
  induction count with
  | zero => simp
  | succ count ih =>
      rw [join_succ, ih, Nat.succ_mul, List.take_add, List.mapIdx_append]
      congr 1
      apply List.ext_getElem
      · simp [block]
      · intro position left right
        have below : position < size ∧ count * size + position < xs.length := by
          simp only [block, List.length_map, List.length_take, List.length_drop] at left
          omega
        have front : (xs.take (count * size)).length = count * size := by
          rw [List.length_take]
          omega
        have owner : (position + count * size) / size = count := by
          rw [Nat.add_mul_div_right _ _ (by omega), Nat.div_eq_of_lt below.1, Nat.zero_add]
        simp [block, front, owner]

theorem mem_block_iff (size : Nat) (positive : 0 < size) (xs : List α) (index : Nat)
    (entry : α) :
    entry ∈ block size xs index ↔
      ∃ position, xs[position]? = some entry ∧ position / size = index := by
  rw [List.mem_iff_getElem?]
  constructor
  · intro ⟨offset, found⟩
    have below : offset < size := by
      have inside := (List.getElem?_eq_some_iff.mp found).1
      rw [block, List.length_take] at inside
      omega
    rw [block, List.getElem?_take_of_lt below, List.getElem?_drop] at found
    refine ⟨index * size + offset, found, ?_⟩
    rw [Nat.mul_comm, Nat.mul_add_div positive, Nat.div_eq_of_lt below, Nat.add_zero]
  · intro ⟨position, found, owner⟩
    subst owner
    refine ⟨position % size, ?_⟩
    rw [block, List.getElem?_take_of_lt (Nat.mod_lt position positive), List.getElem?_drop,
      Nat.div_add_mod' position size]
    exact found

def pieces (size total : Nat) (xs : List α) : List (List α) :=
  (List.range ((total + size - 1) / size)).map (block size xs)

theorem flatten_pieces (size total : Nat) (xs : List α) :
    (pieces size total xs).flatten = xs.take ((total + size - 1) / size * size) := by
  rw [← join_block, join, pieces, List.flatMap_def]

theorem flatten_pieces_all (size : Nat) (positive : 0 < size) (xs : List α) :
    (pieces size xs.length xs).flatten = xs := by
  rw [flatten_pieces]
  apply List.take_of_length_le
  have rest := Nat.div_add_mod (xs.length + size - 1) size
  have below := Nat.mod_lt (xs.length + size - 1) positive
  rw [Nat.mul_comm] at rest
  omega

theorem pieces_map {β : Type} (f : α → β) (size total : Nat) (xs : List α) :
    pieces size total (xs.map f) = (pieces size total xs).map (List.map f) := by
  simp [pieces, block, List.map_drop, List.map_take]

theorem ne_nil_of_mem_pieces (size : Nat) (positive : 0 < size) (xs : List α) (piece : List α)
    (member : piece ∈ pieces size xs.length xs) : piece ≠ [] := by
  obtain ⟨index, inside, rfl⟩ := List.mem_map.mp member
  have room := (Nat.le_div_iff_mul_le positive).mp (List.mem_range.mp inside)
  rw [Nat.succ_mul] at room
  apply List.ne_nil_of_length_pos
  rw [block, List.length_take, List.length_drop]
  omega

theorem pieces_eq_nil_iff (size : Nat) (positive : 0 < size) (xs : List α) :
    pieces size xs.length xs = [] ↔ xs = [] := by
  constructor
  · intro none
    rw [← flatten_pieces_all size positive xs, none, List.flatten_nil]
  · intro empty
    apply List.eq_nil_iff_forall_not_mem.mpr
    intro piece member
    have whole := flatten_pieces_all size positive xs
    rw [empty, List.flatten_eq_nil_iff] at whole
    exact ne_nil_of_mem_pieces size positive xs piece member (whole piece (empty ▸ member))

theorem pieces_two (size : Nat) (xs : List α) (more : size < xs.length)
    (within : xs.length ≤ 2 * size) :
    pieces size xs.length xs = [xs.take size, xs.drop size] := by
  have count : (xs.length + size - 1) / size = 2 :=
    Nat.div_eq_of_lt_le (by omega) (by omega)
  have rest : (xs.drop size).take size = xs.drop size :=
    List.take_of_length_le (by rw [List.length_drop]; omega)
  rw [pieces, count]
  simp [List.range_succ, block, rest]

theorem length_pieces {β : Type} (size total : Nat) (xs : List α) (ys : List β)
    (same : xs.length = ys.length) :
    (pieces size total xs).map List.length = (pieces size total ys).map List.length := by
  simp only [pieces, block, List.map_map, Function.comp_def, List.length_take, List.length_drop,
    same]

end Cut

section Dot

variable {R : Type} [CommSemiring R]

def dot (xs ys : List R) : R := (List.zipWith (· * ·) xs ys).sum

def sumTo (count : Nat) (terms : Nat → R) : R := ((List.range count).map terms).sum

@[simp] theorem dot_nil_left (ys : List R) : dot [] ys = 0 := by simp [dot]

@[simp] theorem dot_nil_right (xs : List R) : dot xs [] = 0 := by simp [dot]

theorem dot_cons (x y : R) (xs ys : List R) :
    dot (x :: xs) (y :: ys) = x * y + dot xs ys := by simp [dot]

theorem dot_append (xs ys xs' ys' : List R) (same : xs.length = ys.length) :
    dot (xs ++ xs') (ys ++ ys') = dot xs ys + dot xs' ys' := by
  simp [dot, List.zipWith_append same]

theorem dot_zeros (xs : List R) (count : Nat) : dot xs (List.replicate count 0) = 0 := by
  induction count generalizing xs with
  | zero => simp
  | succ count ih =>
      cases xs with
      | nil => simp
      | cons x xs => rw [List.replicate_succ, dot_cons, ih]; simp

theorem dot_take_pad (xs ys : List R) (padding : Nat) (long : ys.length ≤ xs.length) :
    dot (xs.take ys.length) ys = dot xs (ys ++ List.replicate padding 0) := by
  have split := dot_append (xs.take ys.length) ys (xs.drop ys.length)
    (List.replicate padding 0) (by simp [long])
  rw [List.take_append_drop, dot_zeros, add_zero] at split
  exact split.symm

theorem sumTo_succ (count : Nat) (terms : Nat → R) :
    sumTo (count + 1) terms = sumTo count terms + terms count := by
  simp [sumTo, List.range_succ]

theorem sumTo_congr (count : Nat) (left right : Nat → R)
    (agree : ∀ index, index < count → left index = right index) :
    sumTo count left = sumTo count right := by
  rw [sumTo, sumTo, List.map_congr_left]
  intro index member
  exact agree index (List.mem_range.mp member)

theorem sumTo_add (count : Nat) (left right : Nat → R) :
    sumTo count (fun index => left index + right index) =
      sumTo count left + sumTo count right := by
  induction count with
  | zero => simp [sumTo]
  | succ count ih => rw [sumTo_succ, sumTo_succ, sumTo_succ, ih]; ring

theorem sumTo_comm (rows columns : Nat) (terms : Nat → Nat → R) :
    sumTo rows (fun row => sumTo columns (terms row)) =
      sumTo columns (fun column => sumTo rows (fun row => terms row column)) := by
  induction rows with
  | zero => simp [sumTo]
  | succ rows ih =>
      simp only [sumTo_succ, sumTo_add, ih]

theorem sumTo_sum {β : Type} (count : Nat) (items : List β) (terms : Nat → β → R) :
    sumTo count (fun index => (items.map (terms index)).sum) =
      (items.map fun item => sumTo count fun index => terms index item).sum := by
  induction items with
  | nil => simp [sumTo]
  | cons item rest ih => simp only [List.map_cons, List.sum_cons, sumTo_add, ih]

theorem dot_join (size count : Nat) (left right : Nat → List R)
    (sizedLeft : ∀ index, index < count → (left index).length = size)
    (sizedRight : ∀ index, index < count → (right index).length = size) :
    dot (join count left) (join count right) =
      sumTo count (fun index => dot (left index) (right index)) := by
  induction count with
  | zero => simp [sumTo]
  | succ count ih =>
      have before := ih (fun i b => sizedLeft i (by omega)) (fun i b => sizedRight i (by omega))
      rw [join_succ, join_succ, sumTo_succ, ← before]
      apply dot_append
      rw [join_length size count left (fun i b => sizedLeft i (by omega)),
        join_length size count right (fun i b => sizedRight i (by omega))]

def addLists (size count : Nat) (lists : Nat → List R) : List R :=
  (List.range size).map fun entry => sumTo count fun index => (lists index).getD entry 0

@[simp] theorem addLists_length (size count : Nat) (lists : Nat → List R) :
    (addLists size count lists).length = size := by simp [addLists]

theorem addLists_zero (size : Nat) (lists : Nat → List R) :
    addLists size 0 lists = List.replicate size 0 := by
  simp [addLists, sumTo]

theorem addLists_succ (size count : Nat) (lists : Nat → List R) :
    addLists size (count + 1) lists =
      List.zipWith (· + ·) (addLists size count lists)
        ((List.range size).map fun entry => (lists count).getD entry 0) := by
  simp only [addLists, List.zipWith_map, List.zipWith_self, sumTo_succ]

theorem dot_add_right (xs ys zs : List R) (same : ys.length = zs.length) :
    dot xs (List.zipWith (· + ·) ys zs) = dot xs ys + dot xs zs := by
  induction ys generalizing xs zs with
  | nil => cases zs <;> simp_all
  | cons y ys ih =>
      cases zs with
      | nil => simp at same
      | cons z zs =>
          cases xs with
          | nil => simp
          | cons x xs =>
              rw [List.zipWith_cons_cons, dot_cons, dot_cons, dot_cons,
                ih xs zs (by simpa using same)]
              ring

theorem range_getD (size : Nat) (xs : List R) (sized : xs.length = size) :
    (List.range size).map (fun entry => xs.getD entry 0) = xs := by
  subst size
  apply List.ext_getElem
  · simp
  · intro entry left right
    simp [List.getElem?_eq_getElem right]

theorem dot_addLists (size count : Nat) (xs : List R) (lists : Nat → List R)
    (sized : ∀ index, index < count → (lists index).length = size) :
    dot xs (addLists size count lists) = sumTo count (fun index => dot xs (lists index)) := by
  induction count with
  | zero => rw [addLists_zero, dot_zeros]; simp [sumTo]
  | succ count ih =>
      rw [addLists_succ, dot_add_right _ _ _ (by simp), sumTo_succ,
        ih (fun i b => sized i (by omega)), range_getD size _ (sized count (by omega))]

theorem addLists_pad (size padding count : Nat) (lists : Nat → List R)
    (sized : ∀ index, index < count → (lists index).length = size) :
    addLists (size + padding) count (fun index => lists index ++ List.replicate padding 0) =
      addLists size count lists ++ List.replicate padding 0 := by
  induction count with
  | zero => rw [addLists_zero, addLists_zero, List.replicate_append_replicate]
  | succ count ih =>
      have last := sized count (by omega)
      rw [addLists_succ, addLists_succ, ih fun index below => sized index (by omega),
        range_getD (size + padding) _ (by simp [last]), range_getD size _ last,
        List.zipWith_append (by simp [last])]
      simp

theorem block_addLists (size blocks count : Nat) (lists : Nat → List R) (index : Nat)
    (bound : index < blocks) :
    block size (addLists (blocks * size) count lists) index =
      addLists size count fun list => block size (lists list) index := by
  have room : (index + 1) * size ≤ blocks * size := Nat.mul_le_mul_right size bound
  rw [Nat.succ_mul] at room
  apply List.ext_getElem
  · rw [block_length size blocks _ (addLists_length _ _ _) index bound, addLists_length]
  · intro entry left right
    have below : entry < size := by simpa using right
    simp only [block, addLists, List.getElem_take, List.getElem_drop, List.getElem_map,
      List.getElem_range]
    apply sumTo_congr
    intro list _
    simp [List.getD_eq_getElem?_getD, List.getElem?_drop, below]

end Dot

end ScalarLM.Blocks
