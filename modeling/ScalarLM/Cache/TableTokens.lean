import ScalarLM.Cache.TableEdits
import Mathlib.Tactic.Ring
import Mathlib.Tactic.Linarith

/-! The tokens in a table's blocks, and how many blocks more tokens take. -/

namespace ScalarLM.Cache

section Rounding

variable {size : Nat}

theorem cdiv_le_iff (positive : 0 < size) (a k : Nat) : cdiv a size ≤ k ↔ a ≤ k * size := by
  rw [cdiv, Nat.div_le_iff_le_mul_add_pred positive, Nat.mul_comm]
  omega

theorem le_cdiv_mul (positive : 0 < size) (a : Nat) : a ≤ cdiv a size * size :=
  (cdiv_le_iff positive a _).mp (Nat.le_refl _)

theorem cdiv_mono (positive : 0 < size) {a b : Nat} (le : a ≤ b) : cdiv a size ≤ cdiv b size :=
  (cdiv_le_iff positive a _).mpr (le.trans (le_cdiv_mul positive b))

theorem lt_cdiv_iff (positive : 0 < size) (a k : Nat) : k < cdiv a size ↔ k * size < a := by
  have bound := cdiv_le_iff positive a k
  omega

theorem cdiv_sub_mul (positive : 0 < size) (a k : Nat) :
    cdiv (a - k * size) size = cdiv a size - k := by
  refine Nat.le_antisymm ?_ ?_
  · rw [cdiv_le_iff positive, Nat.sub_mul]
    have := le_cdiv_mul positive a
    omega
  · rw [Nat.sub_le_iff_le_add, cdiv_le_iff positive, Nat.add_mul]
    have := le_cdiv_mul positive (a - k * size)
    omega

theorem neg_ediv_eq (positive : 0 < size) (a : Nat) :
    (-(a : Int)) / (size : Int) = -(cdiv a size : Int) := by
  have above := le_cdiv_mul positive a
  have below : cdiv a size * size < a + size := by
    by_contra large
    have less : (cdiv a size - 1) * size < a := by
      refine (lt_cdiv_iff positive a _).mp ?_
      have some : 0 < cdiv a size := Nat.pos_of_ne_zero fun none => by
        rw [none, Nat.zero_mul] at large
        omega
      omega
    rw [Nat.sub_mul] at less
    omega
  have size_pos : (0 : Int) < size := by exact_mod_cast positive
  have above' : (a : Int) ≤ cdiv a size * size := by exact_mod_cast above
  have below' : (cdiv a size * size : Int) < a + size := by exact_mod_cast below
  have unique : (-(a : Int)) / (size : Int) = -(cdiv a size : Int) ∧
      (-(a : Int)) % (size : Int) = cdiv a size * size - a :=
    (Int.ediv_emod_unique size_pos).mpr ⟨by ring, by omega, by omega⟩
  exact unique.1

theorem div_le_cdiv (positive : 0 < size) (a : Nat) : a / size ≤ cdiv a size := by
  have floor := Nat.div_mul_le_self a size
  have ceiling := le_cdiv_mul positive a
  exact Nat.le_of_mul_le_mul_right (floor.trans ceiling) positive

end Rounding

section Chunks

variable {size : Nat} (table : BlockTable)

theorem getElem?_chunkList (xs : List Nat) (index : Nat) :
    (chunkList xs size)[index]? =
      if index < cdiv xs.length size then some (Blocks.block size xs index) else none := by
  rw [chunkList, List.getElem?_map]
  split
  · rename_i inside
    rw [List.getElem?_range inside, Option.map_some]
  · rename_i outside
    rw [List.getElem?_eq_none (by rw [List.length_range]; omega), Option.map_none]

theorem BlockTable.full_add_firstChunkSize (positive : 0 < size) :
    table.numFullSlots + table.firstChunkSize size = (table.numFullSlots / size + 1) * size := by
  have split := Nat.div_add_mod table.numFullSlots size
  have below := Nat.mod_lt table.numFullSlots positive
  rw [firstChunkSize, Nat.add_mul, Nat.one_mul, Nat.mul_comm (_ / _)]
  omega

theorem BlockTable.getElem?_chunkTokenBlocksForAppend (positive : 0 < size) (tokenIds : List Nat)
    (offset : Nat) :
    (table.chunkTokenBlocksForAppend size tokenIds)[offset]? =
      if offset < cdiv (table.numFullSlots + tokenIds.length) size - table.numFullSlots / size ∧
          tokenIds ≠ [] then
        some ((tokenIds.drop ((table.numFullSlots / size + offset) * size -
          table.numFullSlots)).take
            (size - (table.numFullSlots - (table.numFullSlots / size + offset) * size)))
      else none := by
  have first := table.full_add_firstChunkSize positive
  have floor := Nat.div_add_mod table.numFullSlots size
  rw [Nat.mul_comm] at floor
  by_cases some : tokenIds = []
  · simp [chunkTokenBlocksForAppend, some]
  have counted : 0 < tokenIds.length := List.length_pos_iff.mpr some
  have whole : cdiv (table.numFullSlots + tokenIds.length) size - table.numFullSlots / size =
      cdiv (tokenIds.length - table.firstChunkSize size) size + 1 := by
    have shift := cdiv_sub_mul positive (table.numFullSlots + tokenIds.length)
      (table.numFullSlots / size + 1)
    rw [← first, Nat.add_sub_add_left] at shift
    have more : table.numFullSlots / size < cdiv (table.numFullSlots + tokenIds.length) size := by
      rw [lt_cdiv_iff positive]
      omega
    omega
  rw [chunkTokenBlocksForAppend, if_neg (by simp [some]), whole]
  cases offset with
  | zero =>
      have start : table.numFullSlots / size * size - table.numFullSlots = 0 := by omega
      have rest : size - (table.numFullSlots - table.numFullSlots / size * size) =
          table.firstChunkSize size := by
        rw [firstChunkSize]
        omega
      rw [List.getElem?_cons_zero, if_pos ⟨Nat.succ_pos _, some⟩, Nat.add_zero, start, rest,
        List.drop_zero]
  | succ offset =>
      have start : (table.numFullSlots / size + (offset + 1)) * size - table.numFullSlots =
          table.firstChunkSize size + offset * size := by
        have shift : (table.numFullSlots / size + (offset + 1)) * size =
            (table.numFullSlots / size + 1) * size + offset * size := by ring
        omega
      have rest : size - (table.numFullSlots - (table.numFullSlots / size + (offset + 1)) * size) =
          size := by
        have shift : (table.numFullSlots / size + (offset + 1)) * size =
            (table.numFullSlots / size + 1) * size + offset * size := by ring
        omega
      rw [List.getElem?_cons_succ, getElem?_chunkList, List.length_drop, start, rest,
        Blocks.block, List.drop_drop]
      simp [some]

theorem BlockTable.length_chunkTokenBlocksForAppend_le (positive : 0 < size)
    (tokenIds : List Nat) : (table.chunkTokenBlocksForAppend size tokenIds).length ≤
      cdiv (table.numFullSlots + tokenIds.length) size - table.numFullSlots / size := by
  rw [← List.getElem?_eq_none_iff, table.getElem?_chunkTokenBlocksForAppend positive,
    if_neg (fun both => Nat.lt_irrefl _ both.1)]

theorem BlockTable.touched_eq (positive : 0 < size) (tokenIds : List Nat) (lookahead : Nat) :
    table.getNumBlocksTouchedByAppendSlots size tokenIds lookahead =
      (cdiv (table.numFullSlots + tokenIds.length + lookahead) size : Int) -
        (table.numFullSlots / size : Nat) := by
  have first := table.full_add_firstChunkSize positive
  unfold getNumBlocksTouchedByAppendSlots
  generalize total : table.numFullSlots + tokenIds.length + lookahead = slots
  have slack : ((table.firstChunkSize size : Int) - (tokenIds.length + lookahead)) =
      -(slots : Int) + ((table.numFullSlots / size : Nat) + 1 : Int) * size := by
    have cast : (table.numFullSlots + table.firstChunkSize size : Int) =
        ((table.numFullSlots / size : Nat) + 1 : Int) * size := by exact_mod_cast first
    rw [← cast, ← total]
    push_cast
    ring
  have size_pos : (0 : Int) < size := by exact_mod_cast positive
  dsimp only
  rw [slack, Int.add_mul_ediv_right _ _ (ne_of_gt size_pos), neg_ediv_eq positive]
  ring

end Chunks

section Contents

structure Holds (blockSize : Nat) (blocks : List Block) (tokens : List Nat) : Prop where
  room : tokens.length ≤ blocks.length * blockSize
  cut : ∀ index block, blocks[index]? = some block →
    block.tokenIds = Blocks.block blockSize tokens index

theorem block_append (size : Nat) (front back : List Nat) (index : Nat) :
    Blocks.block size (front ++ back) index = Blocks.block size front index ++
      (back.drop (index * size - front.length)).take (size - (front.length - index * size)) := by
  rw [Blocks.block, List.drop_append, List.take_append, List.length_drop]
  rfl

theorem length_block (size : Nat) (xs : List Nat) (index : Nat) :
    (Blocks.block size xs index).length = min size (xs.length - index * size) := by
  rw [Blocks.block, List.length_take, List.length_drop]

theorem Holds.append_empty {size : Nat} {blocks grown : List Block} {tokens : List Nat}
    (holds : Holds size blocks tokens) {count : Nat}
    (more : grown.map Block.tokenIds = blocks.map Block.tokenIds ++ List.replicate count []) :
    Holds size grown tokens ∧ grown.length = blocks.length + count := by
  have lengths := congrArg List.length more
  rw [List.length_append, List.length_map, List.length_map, List.length_replicate] at lengths
  refine ⟨⟨?_, ?_⟩, lengths⟩
  · rw [lengths, Nat.add_mul]
    exact holds.room.trans (Nat.le_add_right _ _)
  · intro index block there
    have found : (grown.map Block.tokenIds)[index]? = some block.tokenIds := by
      rw [List.getElem?_map, there, Option.map_some]
    rw [more, List.getElem?_append] at found
    split at found
    · rw [List.getElem?_map, Option.map_eq_some_iff] at found
      obtain ⟨old, at', same⟩ := found
      rw [← same, holds.cut index old at']
    · rename_i behind
      rw [List.length_map] at behind
      have none := List.eq_of_mem_replicate (List.mem_of_getElem? found)
      have far : tokens.length ≤ index * size :=
        holds.room.trans (Nat.mul_le_mul_right size (Nat.le_of_not_lt behind))
      rw [none, Blocks.block, List.drop_of_length_le far, List.take_nil]

variable {others : Multiset BlockId} {allocator : CpuGpuBlockAllocator}

namespace BlockTable

variable {table : BlockTable} {blockSize : Nat} {tokens : List Nat}

/-- A table on a device that holds the tokens its slots are counted for. -/
structure LiesOn (device : Device) (allocator : CpuGpuBlockAllocator) (blockSize : Nat)
    (table : BlockTable) (tokens : List Nat) : Prop where
  holds : Holds blockSize table.blocks.blocks tokens
  counted : table.numFullSlots = tokens.length
  once : table.physicalBlockIds.Nodup
  within : ∀ id ∈ table.physicalBlockIds, id ∈ (allocator.on device).allBlockIndices
  some : table.blocks.blocks ≠ []

theorem isAllocated_of_ne_nil (some : table.blocks.blocks ≠ []) : table.isAllocated = true :=
  decide_eq_true (List.length_pos_iff.mpr some)

theorem LiesOn.ensureNumEmptySlots_outcome (positive : 0 < blockSize)
    (books : allocator.gpu.Books (others + ↑table.physicalBlockIds))
    (fit : LiesOn .gpu allocator blockSize table tokens) (slots : Nat) :
    (∃ grown gpu, table.ensureNumEmptySlots allocator.gpu blockSize slots = .ok (grown, gpu) ∧
      Extends others allocator.gpu table.physicalBlockIds gpu grown.physicalBlockIds
        (cdiv (tokens.length + slots) blockSize - table.blocks.blocks.length) ∧
      Holds blockSize grown.blocks.blocks tokens ∧
      grown.blocks.blocks.length = table.blocks.blocks.length +
        (cdiv (tokens.length + slots) blockSize - table.blocks.blocks.length) ∧
      grown.numFullSlots = table.numFullSlots) ∨
    (table.ensureNumEmptySlots allocator.gpu blockSize slots = .error .noFreeBlocks ∧
      allocator.gpu.freeBlockIndices.length <
        cdiv (tokens.length + slots) blockSize - table.blocks.blocks.length) := by
  have room := fit.holds.room
  have needed : cdiv (slots - table.numEmptySlots blockSize) blockSize =
      cdiv (tokens.length + slots) blockSize - table.blocks.blocks.length := by
    rw [← cdiv_sub_mul positive, numEmptySlots, fit.counted]
    congr 1
    omega
  rw [ensureNumEmptySlots, isAllocated_of_ne_nil fit.some]
  simp only [Bool.not_true, Bool.false_eq_true, if_false]
  split
  · rename_i enough
    have none : cdiv (slots - table.numEmptySlots blockSize) blockSize = 0 := by
      rw [Nat.sub_eq_zero_of_le enough]
      exact Nat.le_zero.mp ((cdiv_le_iff positive 0 0).mpr (Nat.zero_le _))
    rw [← needed, none]
    exact .inl ⟨table, allocator.gpu, rfl, .refl books, fit.holds, rfl, rfl⟩
  · rw [← needed]
    rcases growBlocks_outcome (cdiv (slots - table.numEmptySlots blockSize) blockSize)
      table.blocks allocator.gpu books with ⟨grown, gpu, run, step, more⟩ | ⟨run, few⟩
    · obtain ⟨holds, length⟩ := fit.holds.append_empty more
      refine .inl ⟨{ table with blocks := grown }, gpu, ?_, step, holds, length, rfl⟩
      rw [run]
      rfl
    · refine .inr ⟨?_, few⟩
      rw [run]
      rfl

theorem length_eq_of_getElem?_map {blocks appended : List Block} {change : Nat → Block → List Nat}
    (added : ∀ place, appended[place]?.map Block.tokenIds = blocks[place]?.map (change place)) :
    appended.length = blocks.length := by
  refine Nat.le_antisymm ?_ ?_
  · have beyond := added blocks.length
    rw [List.getElem?_eq_none (Nat.le_refl _), Option.map_none, Option.map_eq_none_iff] at beyond
    exact List.getElem?_eq_none_iff.mp beyond
  · have beyond := added appended.length
    rw [List.getElem?_eq_none (Nat.le_refl _), Option.map_none] at beyond
    exact List.getElem?_eq_none_iff.mp (Option.map_eq_none_iff.mp beyond.symm)

theorem holds_appended {blocks appended : List Block} (positive : 0 < blockSize)
    (holds : Holds blockSize blocks tokens) (tokenIds : List Nat)
    (fits : tokens.length + tokenIds.length ≤ blocks.length * blockSize)
    (counted : table.numFullSlots = tokens.length)
    (added : ∀ place, appended[place]?.map Block.tokenIds =
      blocks[place]?.map fun block => block.tokenIds ++
        if tokens.length / blockSize ≤ place then
          (table.chunkTokenBlocksForAppend blockSize tokenIds)[place -
            tokens.length / blockSize]?.getD []
        else []) : Holds blockSize appended (tokens ++ tokenIds) := by
  have lengths := length_eq_of_getElem?_map added
  refine ⟨by rw [List.length_append, lengths]; exact fits, ?_⟩
  intro index block there
  have at' := added index
  rw [there, Option.map_some, eq_comm, Option.map_eq_some_iff] at at'
  obtain ⟨old, found, same⟩ := at'
  rw [← same, holds.cut index old found, block_append]
  congr 1
  have floor := Nat.div_mul_le_self tokens.length blockSize
  by_cases before : index < tokens.length / blockSize
  · have past : (index + 1) * blockSize ≤ tokens.length :=
      (Nat.mul_le_mul_right blockSize before).trans floor
    have none : blockSize - (tokens.length - index * blockSize) = 0 := by
      rw [Nat.add_mul] at past
      omega
    rw [if_neg (Nat.not_le.mpr before), none, List.take_zero]
  · have behind := Nat.le_of_not_lt before
    have place : tokens.length / blockSize + (index - tokens.length / blockSize) = index := by
      omega
    rw [if_pos behind, table.getElem?_chunkTokenBlocksForAppend positive, counted, place]
    split
    · rfl
    · rename_i outside
      rw [not_and_or, not_not] at outside
      rcases outside with far | none
      · have ceiling := le_cdiv_mul positive (tokens.length + tokenIds.length)
        have past : cdiv (tokens.length + tokenIds.length) blockSize * blockSize ≤
            index * blockSize := Nat.mul_le_mul_right blockSize (by omega)
        rw [List.drop_of_length_le (by omega), List.take_nil]
        rfl
      · rw [none, List.drop_nil, List.take_nil]
        rfl

/-- Appending takes blocks for what is new, and one for each shared block that it writes to,
which are only blocks before `old`. It fails only when these are not free. The blocks that the
new tokens go to are shared with nobody afterwards. -/
theorem appendTokenIds_outcome (positive : 0 < blockSize)
    (books : allocator.gpu.Books (others + ↑table.physicalBlockIds))
    (size : allocator.gpu.blockSize = blockSize)
    (fit : LiesOn .gpu allocator blockSize table tokens) {old : Nat}
    (early : old ≤ table.physicalBlockIds.length)
    (alone : ∀ place id, old ≤ place → table.physicalBlockIds[place]? = Option.some id →
      id ∉ others) (tokenIds : List Nat) (lookahead : Nat) :
    (∃ appended gpu used,
      table.appendTokenIds allocator blockSize tokenIds lookahead =
        .ok (appended, { allocator with gpu := gpu }) ∧
      Extends others allocator.gpu table.physicalBlockIds gpu appended.physicalBlockIds used ∧
      used ≤ cdiv (tokens.length + tokenIds.length + lookahead) blockSize -
          table.physicalBlockIds.length +
        (min old (cdiv (tokens.length + tokenIds.length + lookahead) blockSize) -
          tokens.length / blockSize) ∧
      appended.physicalBlockIds.length = max table.physicalBlockIds.length
        (cdiv (tokens.length + tokenIds.length + lookahead) blockSize) ∧
      LiesOn .gpu { allocator with gpu := gpu } blockSize appended (tokens ++ tokenIds) ∧
      ∀ position id, tokens.length ≤ position → position < tokens.length + tokenIds.length →
        appended.physicalBlockIds[position / blockSize]? = some id → id ∉ others) ∨
    (table.appendTokenIds allocator blockSize tokenIds lookahead = .error .noFreeBlocks ∧
      allocator.gpu.freeBlockIndices.length <
        cdiv (tokens.length + tokenIds.length + lookahead) blockSize -
            table.physicalBlockIds.length +
          (min old (cdiv (tokens.length + tokenIds.length + lookahead) blockSize) -
            tokens.length / blockSize)) := by
  have listed : table.physicalBlockIds.length = table.blocks.blocks.length := by
    rw [physicalBlockIds, table.blocks.listed, List.length_map]
  rw [listed] at early ⊢
  rcases fit.ensureNumEmptySlots_outcome positive books (tokenIds.length + lookahead) with
    ⟨grown, gpu, run, step, holds, length, same⟩ | ⟨run, few⟩
  · rw [← Nat.add_assoc] at step length
    have full : grown.numFullSlots = tokens.length := same.trans fit.counted
    have most : cdiv (tokens.length + tokenIds.length) blockSize ≤
        cdiv (tokens.length + tokenIds.length + lookahead) blockSize :=
      cdiv_mono positive (Nat.le_add_right _ _)
    have count := grown.length_chunkTokenBlocksForAppend_le positive tokenIds
    rw [full] at count
    have ran := appendBlocks_outcome (grown.chunkTokenBlocksForAppend blockSize tokenIds)
      grown.blocks gpu (tokens.length / blockSize) old step.books
      (step.nodup fit.once) (step.inside fit.within)
      (by
        intro offset chunk found
        rw [grown.getElem?_chunkTokenBlocksForAppend positive, full] at found
        split at found
        · rename_i inside
          have bound : tokens.length / blockSize + offset < grown.blocks.blocks.length := by omega
          refine ⟨_, List.getElem?_eq_getElem bound, ?_⟩
          have cut := holds.cut _ _ (List.getElem?_eq_getElem bound)
          have short := List.length_take_le (blockSize - (tokens.length -
            (tokens.length / blockSize + offset) * blockSize)) (tokenIds.drop
              ((tokens.length / blockSize + offset) * blockSize - tokens.length))
          rw [Option.some.inj found] at short
          rw [cut, length_block, step.size, size]
          omega
        · cases found)
      (by
        intro place id late found shared
        exact alone place id late (step.kept found shared) shared)
    have unfolded : table.appendTokenIds allocator blockSize tokenIds lookahead =
        (appendBlocks grown.blocks gpu (tokens.length / blockSize)
          (grown.chunkTokenBlocksForAppend blockSize tokenIds)).map fun result =>
            (⟨result.1, tokens.length + tokenIds.length⟩, { allocator with gpu := result.2 }) := by
      rw [appendTokenIds, run, ← full]
      rfl
    rw [unfolded]
    rcases ran with ⟨appended, gpu', used, run', step', bound, added, own⟩ | ⟨run', few⟩
    · refine .inl ⟨⟨appended, tokens.length + tokenIds.length⟩, gpu', _, by rw [run']; rfl,
        step.trans step', by omega, ?_, ?_, ?_⟩
      · have lengths := length_eq_of_getElem?_map added
        change appended.blockIds.length = max table.blocks.blocks.length _
        rw [appended.listed, List.length_map]
        omega
      · have fits : tokens.length + tokenIds.length ≤
            grown.blocks.blocks.length * blockSize := by
          rw [← cdiv_le_iff positive]
          omega
        have whole := holds_appended positive holds tokenIds fits full added
        refine ⟨whole, List.length_append.symm, step'.nodup (step.nodup fit.once),
          step'.inside (step.inside fit.within), ?_⟩
        intro none
        have still := (step.trans step').length_le
        have before := List.length_pos_iff.mpr fit.some
        rw [physicalBlockIds, table.blocks.listed, appended.listed, none] at still
        simp only [List.length_map, List.map_nil, List.length_nil] at still
        omega
      · intro position id after before found
        have place : tokens.length / blockSize +
            (position / blockSize - tokens.length / blockSize) = position / blockSize :=
          Nat.add_sub_cancel' (Nat.div_le_div_right after)
        have inside : position / blockSize <
            cdiv (tokens.length + tokenIds.length) blockSize := by
          rw [lt_cdiv_iff positive]
          exact (Nat.div_mul_le_self position blockSize).trans_lt before
        have some : tokenIds ≠ [] := by
          intro none
          rw [none, List.length_nil] at before
          omega
        have chunk := grown.getElem?_chunkTokenBlocksForAppend positive tokenIds
          (position / blockSize - tokens.length / blockSize)
        rw [full, if_pos ⟨by omega, some⟩] at chunk
        have reached := (List.getElem?_eq_some_iff.mp chunk).1
        exact own _ id reached (by rw [place]; exact found)
    · refine .inr ⟨by rw [run']; rfl, ?_⟩
      have taken := step.free
      omega
  · refine .inr ⟨?_, ?_⟩
    · rw [appendTokenIds, run]
      rfl
    · rw [← Nat.add_assoc] at few
      omega

end BlockTable

end Contents

end ScalarLM.Cache
