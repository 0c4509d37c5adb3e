import ScalarLM.Lib.Blocks

/-! Writing into a list that is cut into equal blocks. -/

namespace ScalarLM.Blocks

variable {α : Type}

def overwrite (xs : List α) (offset : Nat) (data : List α) : List α :=
  xs.take offset ++ data ++ xs.drop (offset + data.length)

theorem overwrite_length (xs : List α) (offset : Nat) (data : List α)
    (inside : offset + data.length ≤ xs.length) :
    (overwrite xs offset data).length = xs.length := by
  rw [overwrite, List.length_append, List.length_append, List.length_take, List.length_drop]
  omega

theorem overwrite_getElem? (xs : List α) (offset : Nat) (data : List α)
    (inside : offset + data.length ≤ xs.length) (index : Nat) :
    (overwrite xs offset data)[index]? =
      if offset ≤ index ∧ index < offset + data.length then data[index - offset]?
      else xs[index]? := by
  have front : (xs.take offset).length = offset := by
    rw [List.length_take]
    omega
  rw [overwrite, List.append_assoc]
  by_cases before : index < offset
  · rw [List.getElem?_append_left (by rw [front]; exact before), if_neg (by omega),
      List.getElem?_take, if_pos before]
  · rw [List.getElem?_append_right (by rw [front]; omega), front]
    by_cases within : index < offset + data.length
    · rw [List.getElem?_append_left (by omega), if_pos ⟨by omega, within⟩]
    · rw [List.getElem?_append_right (by omega), if_neg (by omega), List.getElem?_drop]
      congr 1
      omega

theorem block_getElem? (size : Nat) (xs : List α) (index entry : Nat) :
    (block size xs index)[entry]? = if entry < size then xs[index * size + entry]? else none := by
  rw [block, List.getElem?_take, List.getElem?_drop]

theorem block_overwrite (size : Nat) (xs : List α) (index other : Nat) (data : List α)
    (sized : data.length = size) (inside : (index + 1) * size ≤ xs.length) :
    block size (overwrite xs (index * size) data) other =
      if other = index then data else block size xs other := by
  have room : index * size + data.length ≤ xs.length := by
    rw [sized, ← Nat.succ_mul]
    exact inside
  apply List.ext_getElem?
  intro entry
  rw [block_getElem?, overwrite_getElem? xs _ data room]
  by_cases same : other = index
  · rw [if_pos same, same]
    by_cases within : entry < size
    · rw [if_pos within, if_pos ⟨by omega, by omega⟩, Nat.add_sub_cancel_left]
    · rw [if_neg within, List.getElem?_eq_none (by omega)]
  · rw [if_neg same, block_getElem?]
    by_cases within : entry < size
    · rw [if_pos within, if_pos within, if_neg]
      intro both
      rcases Nat.lt_or_gt_of_ne same with less | more
      · have apart : (other + 1) * size ≤ index * size := Nat.mul_le_mul_right size less
        rw [Nat.succ_mul] at apart
        omega
      · have apart : (index + 1) * size ≤ other * size := Nat.mul_le_mul_right size more
        rw [Nat.succ_mul] at apart
        omega
    · rw [if_neg within, if_neg within]

theorem eq_join_of_blocks (size count : Nat) (xs : List α) (blocks : Nat → List α)
    (covers : xs.length = count * size)
    (same : ∀ index < count, block size xs index = blocks index) : xs = join count blocks := by
  have whole : join count (block size xs) = xs := by
    rw [join_block, List.take_of_length_le (by omega)]
  rw [← whole, join, join, List.flatMap_def, List.flatMap_def, List.map_congr_left]
  exact fun index member => same index (List.mem_range.mp member)

end ScalarLM.Blocks
