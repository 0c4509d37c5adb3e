import ScalarLM.Cache.Accounting

/-! What each operation of the manager does to the tables, and when it finds no free block. -/

namespace ScalarLM.Cache

open Engine Paging

namespace BlockSpaceManagerV2

variable {manager : BlockSpaceManagerV2}

structure Sets (before after : BlockSpaceManagerV2) (key : Nat) (table : BlockTable) : Prop where
  accounted : after.Accounted
  tables : after.blockTables = before.blockTables.set key table
  all : ∀ device, (after.blockAllocator.on device).allBlockIndices =
    (before.blockAllocator.on device).allBlockIndices
  size : after.blockSize = before.blockSize
  watermark : after.watermarkBlocks = before.watermarkBlocks

/-- The table of a sequence, if there is one, is on the device. -/
def Located (manager : BlockSpaceManagerV2) (device : Device) (key : Nat) :
    Prop :=
  ∀ table, manager.blockTables.get? key = some table →
    ∀ id ∈ table.physicalBlockIds, id ∈ (manager.blockAllocator.on device).allBlockIndices

theorem tableOf_eq {key : Nat} {table : BlockTable}
    (found : manager.blockTables.get? key = some table) : manager.tableOf key = .ok table := by
  rw [tableOf, found]

theorem Accounted.books_found (accounted : manager.Accounted) {key : Nat} {table : BlockTable}
    (found : manager.blockTables.get? key = some table) (device : Device) :
    (manager.blockAllocator.on device).Books
      (references (manager.blockTables.erase key) + ↑table.physicalBlockIds) := by
  rw [← references_found found]
  exact accounted.books device

theorem Accounted.lies (accounted : manager.Accounted) {key : Nat} {table : BlockTable}
    (found : manager.blockTables.get? key = some table) {device : Device}
    (there : ∀ id ∈ table.physicalBlockIds,
      id ∈ (manager.blockAllocator.on device).allBlockIndices) :
    table.LiesOn device manager.blockAllocator manager.blockSize table.getAllTokenIds := by
  obtain ⟨other, lies⟩ := accounted.tables key table found
  exact ⟨lies.holds, lies.counted, lies.once, there, lies.some⟩

theorem Accounted.edit (accounted : manager.Accounted) {key : Nat} {ids : List BlockId}
    (books : ∀ device, (manager.blockAllocator.on device).Books
      (references (manager.blockTables.erase key) + ↑ids))
    (inside : ∀ id ∈ ids, id ∈ manager.blockAllocator.gpu.allBlockIndices)
    {gpu : NaiveBlockAllocator} {table : BlockTable} {used : Nat} {tokens : List Nat}
    (step : Extends (references (manager.blockTables.erase key)) manager.blockAllocator.gpu
      ids gpu table.physicalBlockIds used)
    (lies : table.LiesOn .gpu { manager.blockAllocator with gpu := gpu } manager.blockSize
      tokens)
    {objects : BlockObjects} (owned : objects.Owned manager.blockAllocator
      (manager.blockTables.set key table)) :
    Sets manager (manager.setTable key table
      { manager.blockAllocator with gpu := { gpu with copyOnWrites := [] } } objects)
      key table := by
  have outside : ∀ id ∈ manager.blockAllocator.gpu.allBlockIndices,
      id ∉ manager.blockAllocator.cpu.allBlockIndices := fun id here there =>
    absurd (@Numbered.apart _ accounted.numbered .gpu .cpu id here there) (by decide)
  have all : ∀ other, ((⟨manager.blockAllocator.cpu, { gpu with copyOnWrites := [] }⟩ :
      CpuGpuBlockAllocator).on other).allBlockIndices =
        (manager.blockAllocator.on other).allBlockIndices := by
    intro other
    cases other
    · rfl
    · exact step.all
  have whole : (manager.setTable key table
      ⟨manager.blockAllocator.cpu, { gpu with copyOnWrites := [] }⟩ objects).Accounted :=
        accounted.setTable
    (by
      intro other
      cases other
      · exact (books .cpu).frame (fun id member => outside id (inside id member))
          fun id member => outside id (step.within inside id member)
      · exact step.books)
    all
    (by
      intro other
      cases other
      · rfl
      · exact step.size)
    (by
      intro other
      cases other
      · exact accounted.clear .cpu
      · rfl)
    (lies.congr rfl)
    (owned.congr all)
  exact ⟨whole, rfl, all, rfl, rfl⟩

theorem length_blocks (table : BlockTable) :
    table.physicalBlockIds.length = table.blocks.blocks.length := by
  rw [BlockTable.physicalBlockIds, table.blocks.listed, List.length_map]

theorem Accounted.room (accounted : manager.Accounted) {table : BlockTable} {device : Device}
    {tokens : List Nat}
    (lies : table.LiesOn device manager.blockAllocator manager.blockSize tokens) :
    0 < (manager.blockObjects.on device).poolSize := by
  obtain ⟨block, member⟩ := List.exists_mem_of_ne_nil _ lies.some
  have listed : block.blockId ∈ table.physicalBlockIds := by
    rw [BlockTable.physicalBlockIds, table.blocks.listed]
    exact List.mem_map_of_mem member
  exact accounted.owned.positive device (lies.within _ listed)

section Append

/-- Appending what is not in the table yet takes blocks for what is new, and for what is
shared before `old`, and fails only when so many are not free. -/
theorem Accounted.appendSlots_outcome (accounted : manager.Accounted) {seq : Sequence}
    {table : BlockTable} (found : manager.blockTables.get? seq.seqId = some table)
    {tokens : List Nat}
    (lies : table.LiesOn .gpu manager.blockAllocator manager.blockSize tokens)
    {old : Nat} (early : old ≤ table.physicalBlockIds.length)
    (alone : ∀ place id, old ≤ place → table.physicalBlockIds[place]? = some id →
      id ∉ references (manager.blockTables.erase seq.seqId)) (lookahead : Nat) :
    (∃ cows manager' table', manager.appendSlots seq lookahead = .ok (cows, manager') ∧
      Sets manager manager' seq.seqId table' ∧
      Edited (references (manager.blockTables.erase seq.seqId)) table.physicalBlockIds cows
        table'.physicalBlockIds ∧
      table'.physicalBlockIds.length = max table.physicalBlockIds.length
        (cdiv (tokens.length + (seq.data.getTokenIds.drop tokens.length).length + lookahead)
          manager.blockSize) ∧
      table'.LiesOn .gpu manager'.blockAllocator manager.blockSize
        (tokens ++ seq.data.getTokenIds.drop tokens.length) ∧
      manager.blockAllocator.gpu.freeBlockIndices.length ≤
        manager'.blockAllocator.gpu.freeBlockIndices.length +
          (cdiv (tokens.length + (seq.data.getTokenIds.drop tokens.length).length + lookahead)
              manager.blockSize - table.physicalBlockIds.length +
            (min old (cdiv (tokens.length + (seq.data.getTokenIds.drop tokens.length).length +
              lookahead) manager.blockSize) - tokens.length / manager.blockSize)) ∧
      ∀ position id, tokens.length ≤ position →
        position < tokens.length + (seq.data.getTokenIds.drop tokens.length).length →
        table'.physicalBlockIds[position / manager.blockSize]? = some id →
          id ∉ references (manager.blockTables.erase seq.seqId)) ∨
    (manager.appendSlots seq lookahead = .error .noFreeBlocks ∧
      manager.blockAllocator.gpu.freeBlockIndices.length <
        cdiv (tokens.length + (seq.data.getTokenIds.drop tokens.length).length + lookahead)
            manager.blockSize - table.physicalBlockIds.length +
          (min old (cdiv (tokens.length + (seq.data.getTokenIds.drop tokens.length).length +
            lookahead) manager.blockSize) - tokens.length / manager.blockSize)) := by
  have unseen : table.getUnseenTokenIds seq.data.getTokenIds =
      seq.data.getTokenIds.drop tokens.length := by
    rw [BlockTable.getUnseenTokenIds, lies.counted]
  rcases BlockTable.appendTokenIds_outcome accounted.positive (accounted.books_found found .gpu)
    (accounted.size .gpu) lies early alone (seq.data.getTokenIds.drop tokens.length) lookahead with
    ⟨appended, gpu, used, run, step, most, length, lies', own⟩ | ⟨run, few⟩
  · obtain ⟨objects, made, owned⟩ := accounted.owned.append appended found
      (by
        rw [← length_blocks, ← length_blocks, length]
        exact Nat.le_max_left _ _)
      (accounted.room lies) (fun _ => rfl) (table.numFullSlots / manager.blockSize)
      (table.chunkTokenBlocksForAppend manager.blockSize
        (seq.data.getTokenIds.drop tokens.length)).length
    have sets := accounted.edit (accounted.books_found found) lies.within step lies' owned
    obtain ⟨moves, edits, noted, _⟩ := step.edits
    have none : manager.blockAllocator.gpu.copyOnWrites = [] := accounted.clear .gpu
    rw [none, List.nil_append] at noted
    refine .inl ⟨gpu.copyOnWrites, _, appended, ?_, sets, noted ▸ edits, length,
      lies'.congr rfl, ?_, own⟩
    · rw [appendSlots, tableOf_eq found]
      simp only [bind, Except.bind, unseen, run, made]
      rfl
    · have taken := step.free
      change _ ≤ gpu.freeBlockIndices.length + _
      omega
  · refine .inr ⟨?_, few⟩
    rw [appendSlots, tableOf_eq found]
    simp only [bind, Except.bind, unseen, run]

theorem alone_behind (table : BlockTable) (others : Multiset BlockId) :
    ∀ place id, table.physicalBlockIds.length ≤ place →
      table.physicalBlockIds[place]? = some id → id ∉ others := by
  intro place id late found
  exact absurd (List.getElem?_eq_some_iff.mp found).1 (Nat.not_lt.mpr late)

end Append

section Devices

variable {allocator : CpuGpuBlockAllocator} {others : Multiset BlockId}

theorem deviceOf_eq (numbered : Numbered allocator) {device : Device} {id : BlockId}
    (inside : id ∈ (allocator.on device).allBlockIndices) :
    allocator.deviceOf id = .ok device := by
  cases device
  · have outside : id ∉ allocator.gpu.allBlockIndices := fun here =>
      absurd (@Numbered.apart _ numbered .gpu .cpu id here inside) (by decide)
    rw [CpuGpuBlockAllocator.deviceOf, if_neg outside]
    exact if_pos inside
  · exact if_pos inside

theorem on_update_self (device : Device) (changed : NaiveBlockAllocator) :
    (allocator.update device changed).on device = changed := by
  rw [allocator.on_update, if_pos rfl]

theorem on_update_all {device : Device} {changed : NaiveBlockAllocator}
    (alike : (allocator.on device).Alike changed) (other : Device) :
    ((allocator.update device changed).on other).allBlockIndices =
      (allocator.on other).allBlockIndices := by
  rw [allocator.on_update]
  split
  · rename_i same
    rw [alike.all, same]
  · rfl

theorem on_update_size {device : Device} {changed : NaiveBlockAllocator}
    (alike : (allocator.on device).Alike changed) (other : Device) :
    ((allocator.update device changed).on other).blockSize = (allocator.on other).blockSize := by
  rw [allocator.on_update]
  split
  · rename_i same
    rw [alike.size, same]
  · rfl

theorem on_update_copies {device : Device} {changed : NaiveBlockAllocator}
    (alike : (allocator.on device).Alike changed) (other : Device) :
    ((allocator.update device changed).on other).copyOnWrites =
      (allocator.on other).copyOnWrites := by
  rw [allocator.on_update]
  split
  · rename_i same
    rw [alike.copies, same]
  · rfl

theorem free_block_eq (numbered : Numbered allocator) {device : Device} {block : Block}
    (books : (allocator.on device).Books (block.blockId ::ₘ others))
    (within : block.blockId ∈ (allocator.on device).allBlockIndices) :
    ∃ changed, allocator.free block = .ok (allocator.update device changed) ∧
      changed.Books others ∧ (allocator.on device).Alike changed := by
  refine ⟨_, ?_, books.released within, ⟨rfl, rfl, rfl⟩⟩
  rw [CpuGpuBlockAllocator.free, deviceOf_eq numbered within]
  simp only [bind, Except.bind, NaiveBlockAllocator.freeBlockId_eq books within]
  rfl

theorem freeBlocks_eq (device : Device) (blocks : List Block) (allocator : CpuGpuBlockAllocator)
    (numbered : Numbered allocator)
    (books : (allocator.on device).Books (others + ↑(blocks.map Block.blockId)))
    (inside : ∀ block ∈ blocks, block.blockId ∈ (allocator.on device).allBlockIndices) :
    ∃ changed, BlockTable.freeBlocks allocator blocks = .ok (allocator.update device changed) ∧
      changed.Books others ∧ (allocator.on device).Alike changed := by
  induction blocks generalizing allocator with
  | nil =>
      refine ⟨allocator.on device, ?_, ?_, .refl _⟩
      · cases device <;> rfl
      · rwa [List.map_nil, Multiset.coe_nil, Multiset.add_zero] at books
  | cons block rest ih =>
      rw [List.map_cons, ← Multiset.cons_coe, Multiset.add_cons] at books
      obtain ⟨given, free, released, alike⟩ :=
        free_block_eq numbered books (inside block List.mem_cons_self)
      obtain ⟨changed, run, books', alike'⟩ := ih (allocator.update device given)
        (numbered.congr (on_update_all alike))
        (by rw [on_update_self]; exact released)
        (by
          intro other member
          rw [on_update_self, alike.all]
          exact inside other (List.mem_cons_of_mem _ member))
      rw [on_update_self] at alike'
      refine ⟨changed, ?_, books', alike.trans alike'⟩
      rw [BlockTable.freeBlocks, free]
      refine run.trans (congrArg Except.ok ?_)
      cases device <;> rfl

end Devices

section Tables

theorem map_blockId (table : BlockTable) :
    table.blocks.blocks.map Block.blockId = table.physicalBlockIds :=
  table.blocks.listed.symm

theorem inside_blocks {table : BlockTable} {ids : List BlockId}
    (inside : ∀ id ∈ table.physicalBlockIds, id ∈ ids) :
    ∀ block ∈ table.blocks.blocks, block.blockId ∈ ids := by
  intro block member
  refine inside _ ?_
  rw [← map_blockId]
  exact List.mem_map_of_mem member

theorem Accounted.free_eq (accounted : manager.Accounted) {key : Nat}
    (located : manager.Located .gpu key) :
    ∃ manager', manager.free key = .ok manager' ∧ manager'.Accounted ∧
      manager'.blockTables.entries = (manager.blockTables.erase key).entries ∧
      (∀ device, (manager'.blockAllocator.on device).allBlockIndices =
        (manager.blockAllocator.on device).allBlockIndices) ∧
      manager'.blockSize = manager.blockSize ∧
      manager'.watermarkBlocks = manager.watermarkBlocks := by
  cases found : manager.blockTables.get? key with
  | none =>
      refine ⟨manager, ?_, accounted, (Dict.erase_absent _ found).symm, fun _ => rfl, rfl, rfl⟩
      rw [free, found]
  | some table =>
      have lies := accounted.lies found (located table found)
      have books := accounted.books_found found
      obtain ⟨changed, run, books', alike⟩ := freeBlocks_eq .gpu table.blocks.blocks
        manager.blockAllocator accounted.numbered (by rw [map_blockId]; exact books .gpu)
        (inside_blocks lies.within)
      obtain ⟨objects, given, owned⟩ := accounted.owned.free found
        (fun block member =>
          deviceOf_eq accounted.numbered (inside_blocks lies.within block member))
        (on_update_all alike)
      refine ⟨{ manager with
        blockAllocator := manager.blockAllocator.update .gpu changed
        blockTables := manager.blockTables.erase key
        blockObjects := objects }, ?_, ?_, rfl, on_update_all alike, rfl, rfl⟩
      · rw [free, found]
        simp only [BlockTable.free, run, given, bind, Except.bind]
        rfl
      · refine ⟨accounted.positive, ?_, ?_, accounted.numbered.congr (on_update_all alike), ?_, ?_,
          owned⟩
        · intro other
          exact (on_update_size alike other).trans (accounted.size other)
        · intro other
          rw [manager.blockAllocator.on_update]
          split
          · exact books'
          · rename_i different
            have moved : (manager.blockAllocator.on other).Books
                (references (manager.blockTables.erase key) + ↑([] : List BlockId)) :=
              (books other).frame (fun id member there =>
                different (accounted.numbered.apart there (lies.within id member)))
                fun id member => absurd member List.not_mem_nil
            rwa [Multiset.coe_nil, Multiset.add_zero] at moved
        · intro other
          exact (on_update_copies alike other).trans (accounted.clear other)
        · intro other table' found'
          rw [Dict.get?_erase] at found'
          split at found'
          · cases found'
          · obtain ⟨place, lies'⟩ := accounted.tables other table' found'
            exact ⟨place, lies'.congr (on_update_all alike place)⟩

theorem BlockList.ofBlocks_blocks (list : BlockList) : BlockList.ofBlocks list.blocks = list := by
  obtain ⟨blocks, ids, listed⟩ := list
  cases listed
  rfl

theorem Accounted.forkTable_eq (accounted : manager.Accounted) {table : BlockTable}
    {tokens : List Nat}
    (lies : table.LiesOn .gpu manager.blockAllocator manager.blockSize tokens)
    (used : ∀ id ∈ table.physicalBlockIds, id ∈ references manager.blockTables) {key : Nat}
    (absent : manager.blockTables.get? key = none) :
    ∃ manager', manager.forkTable table key = .ok manager' ∧ manager'.Accounted ∧
      manager'.blockTables = manager.blockTables.set key table ∧
      (∀ device, (manager'.blockAllocator.on device).allBlockIndices =
        (manager.blockAllocator.on device).allBlockIndices) ∧
      (∀ device, (manager'.blockAllocator.on device).freeBlockIndices =
        (manager.blockAllocator.on device).freeBlockIndices) ∧
      manager'.blockSize = manager.blockSize ∧
      manager'.watermarkBlocks = manager.watermarkBlocks := by
  have inside := inside_blocks lies.within
  obtain ⟨changed, run, books', alike, free⟩ := NaiveBlockAllocator.fork_eq table.blocks.blocks
    (manager.blockAllocator.on .gpu) (accounted.books .gpu) inside (inside_blocks used)
    (by
      intro block member
      obtain ⟨index, there⟩ := List.getElem?_of_mem member
      rw [lies.holds.cut index block there, length_block, accounted.size .gpu]
      exact Nat.min_le_left _ _)
  rw [map_blockId] at books'
  obtain ⟨last, ends⟩ : ∃ last, table.blocks.blocks.getLast? = some last :=
    ⟨_, List.getLast?_eq_some_getLast lies.some⟩
  have place := deviceOf_eq accounted.numbered (inside last (List.mem_of_getLast? ends))
  have slots : (table.blocks.blocks.map fun block => block.tokenIds.length).sum =
      table.numFullSlots := by
    rw [lies.counted, ← lies.getAllTokenIds_eq, BlockTable.getAllTokenIds, List.length_flatMap]
  have same : (⟨.ofBlocks table.blocks.blocks,
      (table.blocks.blocks.map fun block => block.tokenIds.length).sum⟩ : BlockTable) = table := by
    rw [slots, BlockList.ofBlocks_blocks]
  obtain ⟨objects, made, owned⟩ := accounted.owned.start table absent
    (accounted.room lies) (on_update_all alike)
  refine ⟨manager.setTable key table (manager.blockAllocator.update .gpu changed) objects, ?_, ?_,
    rfl, on_update_all alike, ?_, rfl, rfl⟩
  · rw [forkTable, BlockTable.fork, BlockTable.isAllocated_of_ne_nil lies.some]
    simp only [CpuGpuBlockAllocator.fork, BlockObjects.fork, ends, place, bind, Except.bind, run,
      made, pure, Except.pure, Bool.not_true, Bool.false_eq_true, if_false, same]
  · refine accounted.setTable ?_ (on_update_all alike) (on_update_size alike)
      (fun other => (on_update_copies alike other).trans (accounted.clear other))
      (lies.congr (on_update_all alike .gpu)) owned
    intro other
    rw [references_absent absent, manager.blockAllocator.on_update]
    split
    · rwa [Multiset.add_comm]
    · rename_i different
      have before : (manager.blockAllocator.on other).Books
          (references manager.blockTables + ↑([] : List BlockId)) := by
        rw [Multiset.coe_nil, Multiset.add_zero]
        exact accounted.books other
      exact before.frame (fun id member => absurd member List.not_mem_nil)
        fun id member there => different (accounted.numbered.apart there (lies.within id member))
  · intro other
    change ((manager.blockAllocator.update .gpu changed).on other).freeBlockIndices = _
    rw [manager.blockAllocator.on_update]
    split
    · rename_i same
      rw [free, same]
    · rfl

end Tables

section Moves

variable {allocator : CpuGpuBlockAllocator} {others : Multiset BlockId}

theorem findIdx?_range' (start count id : Nat) (low : start ≤ id) (high : id < start + count) :
    (List.range' start count).findIdx? (· = id) = some (id - start) := by
  rw [List.findIdx?_eq_some_iff_getElem]
  refine ⟨by rw [List.length_range']; omega, ?_, ?_⟩
  · rw [List.getElem_range', decide_eq_true_eq]
    omega
  · intro index before
    rw [List.getElem_range', decide_eq_true_eq]
    omega

def physical (allocator : CpuGpuBlockAllocator) : Device → BlockId → Nat
  | .gpu, id => id
  | .cpu, id => id - allocator.gpu.allBlockIndices.length

theorem getPhysicalBlockId_eq (numbered : Numbered allocator) {device : Device} {id : BlockId}
    (inside : id ∈ (allocator.on device).allBlockIndices) :
    (allocator.on device).getPhysicalBlockId id = .ok (physical allocator device id) := by
  have general : ∀ (start count : Nat) (place : NaiveBlockAllocator),
      place.allBlockIndices = List.range' start count → id ∈ place.allBlockIndices →
        place.getPhysicalBlockId id = .ok (id - start) := by
    intro start count place listed member
    rw [listed] at member
    have sorted : (List.range' start count).mergeSort (fun a b => decide (a ≤ b)) =
        List.range' start count := by
      refine List.mergeSort_of_pairwise ?_
      exact List.pairwise_le_range'.imp fun le => decide_eq_true le
    obtain ⟨low, high⟩ := List.mem_range'_1.mp member
    rw [NaiveBlockAllocator.getPhysicalBlockId, listed, sorted, findIdx?_range' _ _ _ low high]
  cases device
  · exact general _ _ _ numbered.cpu inside
  · have listed := numbered.gpu
    rw [List.range_eq_range'] at listed
    exact general 0 _ _ listed inside

theorem fresh_of_start {allocator' after : NaiveBlockAllocator} {ids : List BlockId} {used : Nat}
    (step : Extends others allocator' [] after ids used) :
    ∀ id ∈ ids, id ∉ others := by
  intro id member shared
  obtain ⟨index, there⟩ := List.getElem?_of_mem member
  cases step.kept there shared

theorem swap_outcome (numbered : Numbered allocator) {source target : Device}
    (different : target ≠ source) {table : BlockTable}
    (books : ∀ device, (allocator.on device).Books (others + ↑table.physicalBlockIds))
    (inside : ∀ id ∈ table.physicalBlockIds, id ∈ (allocator.on source).allBlockIndices)
    (once : table.physicalBlockIds.Nodup)
    (short : ∀ block ∈ table.blocks.blocks,
      block.tokenIds.length ≤ (allocator.on target).blockSize) :
    (∃ moved mapping allocator',
      allocator.swap table.blocks.blocks source target = .ok (moved, mapping, allocator') ∧
      mapping.entries = table.physicalBlockIds.zip (moved.map Block.blockId) ∧
      moved.map Block.tokenIds = table.blocks.blocks.map Block.tokenIds ∧
      (∀ id ∈ moved.map Block.blockId, id ∈ (allocator.on target).allBlockIndices) ∧
      (moved.map Block.blockId).Nodup ∧
      (∀ id ∈ moved.map Block.blockId, id ∉ others) ∧
      (∀ device, (allocator'.on device).Books (others + ↑(moved.map Block.blockId))) ∧
      (∀ device, (allocator'.on device).allBlockIndices = (allocator.on device).allBlockIndices) ∧
      (∀ device, (allocator'.on device).blockSize = (allocator.on device).blockSize) ∧
      (∀ device, (allocator'.on device).copyOnWrites = (allocator.on device).copyOnWrites) ∧
      (allocator.on target).freeBlockIndices.length =
        (allocator'.on target).freeBlockIndices.length + table.blocks.blocks.length) ∨
    (allocator.swap table.blocks.blocks source target = .error .noFreeBlocks ∧
      (allocator.on target).freeBlockIndices.length < table.blocks.blocks.length) := by
  obtain ⟨emptied, out, emptyBooks, alike⟩ := NaiveBlockAllocator.swapOut_eq table.blocks.blocks
    (allocator.on source) (by rw [map_blockId, Multiset.add_comm]; exact books source)
    (inside_blocks inside)
  have outside : ∀ id ∈ table.physicalBlockIds, id ∉ (allocator.on target).allBlockIndices :=
    fun id member there => different (numbered.apart there (inside id member))
  have start : (allocator.on target).Books (others + ↑([] : List BlockId)) :=
    (books target).frame outside fun id member => absurd member List.not_mem_nil
  have untouched : (allocator.update source emptied).on target = allocator.on target := by
    rw [allocator.on_update, if_neg different]
  have unfolded : allocator.swap table.blocks.blocks source target =
      ((allocator.on target).swapIn table.blocks.blocks).map fun result =>
        (result.1, .ofAssignments (table.physicalBlockIds.zip (result.1.map Block.blockId)),
          (allocator.update source emptied).update target result.2) := by
    rw [CpuGpuBlockAllocator.swap, out]
    simp only [bind, Except.bind, untouched, map_blockId]
    rfl
  rw [unfolded]
  rcases NaiveBlockAllocator.swapIn_outcome table.blocks.blocks (allocator.on target) [] start short
    with ⟨moved, filled, run, tokens, copies, step⟩ | ⟨run, few⟩
  · rw [List.nil_append] at step
    have lengths : table.physicalBlockIds.length = (moved.map Block.blockId).length := by
      have same := congrArg List.length tokens
      rw [List.length_map, List.length_map] at same
      rw [List.length_map, same, ← map_blockId, List.length_map]
    have once' := step.nodup List.nodup_nil
    have within := step.within fun id absent => absurd absent List.not_mem_nil
    have entries : (Dict.ofAssignments (table.physicalBlockIds.zip
        (moved.map Block.blockId))).entries =
          table.physicalBlockIds.zip (moved.map Block.blockId) := by
      refine Dict.entries_ofAssignments ?_
      rw [List.map_fst_zip (Nat.le_of_eq lengths)]
      exact once
    have full : filled.allBlockIndices = (allocator.on target).allBlockIndices := step.all
    refine .inl ⟨moved, _, _, by rw [run]; rfl, entries, tokens, within, once',
      fresh_of_start step, ?_, ?_, ?_, ?_, ?_⟩
    · intro device
      rw [CpuGpuBlockAllocator.on_update]
      split
      · exact step.books
      · rename_i other
        rw [CpuGpuBlockAllocator.on_update]
        split
        · rename_i same
          have plain : emptied.Books (others + ↑([] : List BlockId)) := by
            rw [Multiset.coe_nil, Multiset.add_zero]
            exact emptyBooks
          refine plain.frame (fun id member => absurd member List.not_mem_nil)
            fun id member there => ?_
          rw [alike.all] at there
          exact different (numbered.apart (within id member) there)
        · rename_i neither
          exact (books device).frame
            (fun id member there => neither (numbered.apart there (inside id member)))
            fun id member there => other (numbered.apart there (within id member))
    · intro device
      rw [CpuGpuBlockAllocator.on_update]
      split
      · rename_i same
        rw [full, same]
      · exact on_update_all alike device
    · intro device
      rw [CpuGpuBlockAllocator.on_update]
      split
      · rename_i same
        rw [step.size, same]
      · exact on_update_size alike device
    · intro device
      rw [CpuGpuBlockAllocator.on_update]
      split
      · rename_i same
        rw [copies, same]
      · exact on_update_copies alike device
    · rw [on_update_self]
      exact step.free
  · exact .inr ⟨by rw [run]; rfl, few⟩

end Moves

section Swaps

def physicalMoves (allocator : CpuGpuBlockAllocator) (source target : Device)
    (moves : List (BlockId × BlockId)) : List (Nat × Nat) :=
  moves.map fun move => (physical allocator source move.1, physical allocator target move.2)

theorem physical_injective {allocator : CpuGpuBlockAllocator} (numbered : Numbered allocator)
    {device : Device} {left right : BlockId}
    (here : left ∈ (allocator.on device).allBlockIndices)
    (there : right ∈ (allocator.on device).allBlockIndices)
    (same : physical allocator device left = physical allocator device right) : left = right := by
  cases device
  · have cancel : ∀ a b c : Nat, c ≤ a → c ≤ b → a - c = b - c → a = b := by omega
    exact cancel left right _ (numbered.mem_cpu here) (numbered.mem_cpu there) same
  · exact same

theorem mapM_physical {allocator : CpuGpuBlockAllocator} (numbered : Numbered allocator)
    {source target : Device} (moves : List (BlockId × BlockId))
    (sourced : ∀ move ∈ moves, move.1 ∈ (allocator.on source).allBlockIndices)
    (targeted : ∀ move ∈ moves, move.2 ∈ (allocator.on target).allBlockIndices) :
    moves.mapM (physicalMove allocator source target) =
      .ok (physicalMoves allocator source target moves) := by
  refine mapM_ok _ _ moves fun move member => ?_
  rw [physicalMove, getPhysicalBlockId_eq numbered (sourced move member),
    getPhysicalBlockId_eq numbered (targeted move member)]
  rfl

/-- All blocks of a sequence go to the other device, or there are too few free there. The
moves are told by the numbers on the devices. -/
theorem Accounted.swapSequence_outcome (accounted : manager.Accounted) {source target : Device}
    (different : target ≠ source) {seq : Sequence} {table : BlockTable}
    (found : manager.blockTables.get? seq.seqId = some table) {tokens : List Nat}
    (lies : table.LiesOn source manager.blockAllocator manager.blockSize tokens) :
    (∃ moves manager' table',
      manager.swapSequence source target seq =
        .ok (physicalMoves manager.blockAllocator source target moves, manager') ∧
      Sets manager manager' seq.seqId table' ∧
      moves = table.physicalBlockIds.zip table'.physicalBlockIds ∧
      (∀ id ∈ table'.physicalBlockIds, id ∉ references (manager.blockTables.erase seq.seqId)) ∧
      table'.physicalBlockIds.length = table.physicalBlockIds.length ∧
      table'.LiesOn target manager'.blockAllocator manager.blockSize tokens ∧
      (manager.blockAllocator.on target).freeBlockIndices.length =
        (manager'.blockAllocator.on target).freeBlockIndices.length +
          table.physicalBlockIds.length) ∨
    (manager.swapSequence source target seq = .error .noFreeBlocks ∧
      (manager.blockAllocator.on target).freeBlockIndices.length <
        table.physicalBlockIds.length) := by
  have count : table.blocks.blocks.length = table.physicalBlockIds.length := by
    rw [← map_blockId, List.length_map]
  have some : table.blocks.blocks.isEmpty = false := by
    simpa using lies.some
  rw [swapSequence, tableOf_eq found]
  simp only [bind, Except.bind, some, Bool.false_eq_true, if_false]
  rcases swap_outcome accounted.numbered different (accounted.books_found found) lies.within
    lies.once (by
      intro block member
      obtain ⟨index, there⟩ := List.getElem?_of_mem member
      rw [lies.holds.cut index block there, length_block, accounted.size target]
      exact Nat.min_le_left _ _) with
    ⟨moved, mapping, allocator', run, entries, same, within, once, fresh, books, all, size, copies,
      free⟩ | ⟨run, few⟩
  · have lengths : moved.length = table.blocks.blocks.length := by
      have same' := congrArg List.length same
      rwa [List.length_map, List.length_map] at same'
    have holds : Holds manager.blockSize moved tokens := by
      have none : moved.map Block.tokenIds =
          table.blocks.blocks.map Block.tokenIds ++ List.replicate 0 [] := by
        rw [same, List.replicate_zero, List.append_nil]
      exact (lies.holds.append_empty none).1
    have lies' : BlockTable.LiesOn target allocator' manager.blockSize
        ⟨.ofBlocks moved, table.numFullSlots⟩ tokens := by
      refine ⟨holds, lies.counted, once, by rw [all]; exact within, ?_⟩
      intro none
      change moved = [] at none
      rw [none, List.length_nil] at lengths
      exact lies.some (List.length_eq_zero_iff.mp lengths.symm)
    obtain ⟨objects, made, owned⟩ := accounted.owned.swapIn
      ⟨.ofBlocks moved, table.numFullSlots⟩ found lengths target
      (by
        obtain ⟨block, member⟩ := List.exists_mem_of_ne_nil _ lies'.some
        exact accounted.owned.positive target (within _ (List.mem_map_of_mem member)))
      all moved.length
    have whole : (manager.setTable seq.seqId ⟨.ofBlocks moved, table.numFullSlots⟩
        allocator' objects).Accounted := accounted.setTable books all size
      (fun device => (copies device).trans (accounted.clear device)) lies' owned
    have numbered := accounted.numbered.congr all
    have sourced : ∀ move ∈ mapping.entries,
        move.1 ∈ (manager.blockAllocator.on source).allBlockIndices := by
      intro move member
      rw [entries] at member
      exact lies.within _ (List.of_mem_zip member).1
    have targeted : ∀ move ∈ mapping.entries,
        move.2 ∈ (manager.blockAllocator.on target).allBlockIndices := by
      intro move member
      rw [entries] at member
      exact within _ (List.of_mem_zip member).2
    have told := mapM_physical numbered mapping.entries
      (fun move member => by rw [all]; exact sourced move member)
      fun move member => by rw [all]; exact targeted move member
    have alike : physicalMoves allocator' source target mapping.entries =
        physicalMoves manager.blockAllocator source target mapping.entries := by
      have gpu : allocator'.gpu.allBlockIndices = manager.blockAllocator.gpu.allBlockIndices :=
        all .gpu
      have numbers : ∀ device id, physical allocator' device id =
          physical manager.blockAllocator device id := by
        intro device id
        cases device
        · rw [physical, physical, gpu]
        · rfl
      exact List.map_congr_left fun move _ => by rw [numbers, numbers]
    have keys : ((physicalMoves manager.blockAllocator source target mapping.entries).map
        Prod.fst).Nodup := by
      have firsts : (physicalMoves manager.blockAllocator source target mapping.entries).map
          Prod.fst = table.physicalBlockIds.map (physical manager.blockAllocator source) := by
        have names : mapping.entries.map Prod.fst = table.physicalBlockIds := by
          rw [entries]
          exact List.map_fst_zip (by rw [List.length_map, lengths, count])
        rw [← names, physicalMoves, List.map_map, List.map_map]
        rfl
      rw [firsts]
      exact List.Nodup.map_on (fun left here right there same =>
        physical_injective accounted.numbered (lies.within left here) (lies.within right there)
          same) lies.once
    refine .inl ⟨mapping.entries, _, ⟨.ofBlocks moved, table.numFullSlots⟩, ?_,
      ⟨whole, rfl, all, rfl, rfl⟩, entries, fresh, ?_, lies', ?_⟩
    · rw [run]
      simp only [made, told, alike, pure, Except.pure, Dict.entries_ofAssignments keys]
    · change (moved.map Block.blockId).length = _
      rw [List.length_map, lengths, count]
    · rw [← count]
      exact free
  · refine .inr ⟨?_, count ▸ few⟩
    rw [run]

end Swaps

section Allocations

def setTables (tables : Dict Nat BlockTable) (table : BlockTable) (seqs : List Sequence) :
    Dict Nat BlockTable :=
  seqs.foldl (fun tables seq => tables.set seq.seqId table) tables

theorem get?_setTables (tables : Dict Nat BlockTable) (table : BlockTable) (seqs : List Sequence)
    (key : Nat) : (setTables tables table seqs).get? key =
      if key ∈ seqs.map Sequence.seqId then some table else tables.get? key := by
  induction seqs generalizing tables with
  | nil => rfl
  | cons seq rest ih =>
      have unfolded : setTables tables table (seq :: rest) =
          setTables (tables.set seq.seqId table) table rest := rfl
      rw [unfolded, ih, Dict.get?_set]
      by_cases later : key ∈ rest.map Sequence.seqId
      · simp [later]
      · by_cases here : key = seq.seqId
        · simp [here]
        · simp [later, here]

theorem Accounted.forkTables_eq (seqs : List Sequence) (accounted : manager.Accounted)
    {table : BlockTable} {tokens : List Nat}
    (lies : table.LiesOn .gpu manager.blockAllocator manager.blockSize tokens)
    (used : ∀ id ∈ table.physicalBlockIds, id ∈ references manager.blockTables)
    (once : (seqs.map Sequence.seqId).Nodup)
    (absent : ∀ seq ∈ seqs, manager.blockTables.get? seq.seqId = none) :
    ∃ manager', seqs.foldlM (fun manager seq => manager.forkTable table seq.seqId) manager =
        .ok manager' ∧ manager'.Accounted ∧
      manager'.blockTables = setTables manager.blockTables table seqs ∧
      (∀ device, (manager'.blockAllocator.on device).allBlockIndices =
        (manager.blockAllocator.on device).allBlockIndices) ∧
      (∀ device, (manager'.blockAllocator.on device).freeBlockIndices =
        (manager.blockAllocator.on device).freeBlockIndices) ∧
      manager'.blockSize = manager.blockSize ∧
      manager'.watermarkBlocks = manager.watermarkBlocks := by
  induction seqs generalizing manager with
  | nil => exact ⟨manager, rfl, accounted, rfl, fun _ => rfl, fun _ => rfl, rfl, rfl⟩
  | cons seq rest ih =>
      rw [List.map_cons, List.nodup_cons] at once
      obtain ⟨middle, run, accounted', tables, all, free, size, watermark⟩ :=
        accounted.forkTable_eq lies used (absent seq List.mem_cons_self)
      have lies' : table.LiesOn .gpu middle.blockAllocator middle.blockSize tokens := by
        rw [size]
        exact lies.congr (all .gpu)
      obtain ⟨final, run', accounted'', tables', all', free', size', watermark'⟩ :=
        ih accounted' lies'
          (fun id member => mem_references.mpr ⟨seq.seqId, table, by
            rw [tables, Dict.get?_set, if_pos rfl], member⟩)
          once.2
          (by
            intro other member
            have different : other.seqId ≠ seq.seqId := fun same =>
              once.1 (same ▸ List.mem_map_of_mem member)
            rw [tables, Dict.get?_set, if_neg different]
            exact absent other (List.mem_cons_of_mem _ member))
      refine ⟨final, ?_, accounted'', ?_, fun device => (all' device).trans (all device),
        fun device => (free' device).trans (free device), size'.trans size,
        watermark'.trans watermark⟩
      · rw [List.foldlM_cons, run]
        exact run'
      · rw [tables', tables]
        rfl

variable {V : Type}

theorem allocate_eq {group : SequenceGroup V} {seq : Sequence} {rest : List Sequence}
    (waiting : group.getSeqs .waiting = seq :: rest) (prompt : seq.data.getTokenIds ≠ [])
    (absent : ∀ other ∈ seq :: rest, manager.blockTables.get? other.seqId = none) :
    manager.allocate group =
      (BlockTable.empty.allocate manager.blockAllocator manager.blockSize
        seq.data.getTokenIds).bind fun result =>
          (manager.blockObjects.start .gpu seq.seqId result.1.blocks.blocks.length).bind
            fun objects => rest.foldlM (fun manager seq => manager.forkTable result.1 seq.seqId)
              (manager.setTable seq.seqId result.1 result.2 objects) := by
  have new : ((seq :: rest).any fun other =>
      (manager.blockTables.get? other.seqId).isSome) = false := by
    rw [List.any_eq_false]
    intro other member
    rw [absent other member]
    exact Bool.false_ne_true
  rw [allocate, waiting]
  simp only [new, Bool.false_eq_true, if_false, allocateSequence, if_neg prompt]
  rfl

theorem Accounted.allocate_outcome (accounted : manager.Accounted) {group : SequenceGroup V}
    {seq : Sequence} {rest : List Sequence} (waiting : group.getSeqs .waiting = seq :: rest)
    (prompt : seq.data.getTokenIds ≠ [])
    (once : ((seq :: rest).map Sequence.seqId).Nodup)
    (absent : ∀ other ∈ seq :: rest, manager.blockTables.get? other.seqId = none) :
    (∃ manager' table, manager.allocate group = .ok manager' ∧ manager'.Accounted ∧
      manager'.blockTables = setTables manager.blockTables table (seq :: rest) ∧
      table.LiesOn .gpu manager'.blockAllocator manager.blockSize seq.data.getTokenIds ∧
      (∀ id ∈ table.physicalBlockIds, id ∉ references manager.blockTables) ∧
      table.physicalBlockIds.length ≤ cdiv seq.data.getTokenIds.length manager.blockSize ∧
      (∀ device, (manager'.blockAllocator.on device).allBlockIndices =
        (manager.blockAllocator.on device).allBlockIndices) ∧
      manager.blockAllocator.gpu.freeBlockIndices.length =
        manager'.blockAllocator.gpu.freeBlockIndices.length +
          cdiv seq.data.getTokenIds.length manager.blockSize ∧
      manager'.blockSize = manager.blockSize ∧
      manager'.watermarkBlocks = manager.watermarkBlocks) ∨
    (manager.allocate group = .error .noFreeBlocks ∧
      manager.blockAllocator.gpu.freeBlockIndices.length <
        cdiv seq.data.getTokenIds.length manager.blockSize) := by
  have here := absent seq List.mem_cons_self
  rw [allocate_eq waiting prompt absent]
  rcases BlockTable.allocate_outcome accounted.positive manager.blockAllocator
    (accounted.size .gpu) (accounted.books .gpu) seq.data.getTokenIds prompt with
    ⟨table, gpu, run, step, lies⟩ | ⟨run, few⟩
  · have start : ∀ device, (manager.blockAllocator.on device).Books
        (references (manager.blockTables.erase seq.seqId) + ↑([] : List BlockId)) := by
      intro device
      rw [references_absent here, Multiset.coe_nil, Multiset.add_zero]
      exact accounted.books device
    have step' : Extends (references (manager.blockTables.erase seq.seqId))
        manager.blockAllocator.gpu [] gpu table.physicalBlockIds
          (cdiv seq.data.getTokenIds.length manager.blockSize) := by
      rw [references_absent here]
      exact step
    have room : 0 < manager.blockObjects.gpu.poolSize := by
      obtain ⟨block, member⟩ := List.exists_mem_of_ne_nil _ lies.some
      have inside := step.within (fun id absent => absurd absent List.not_mem_nil)
        block.blockId (by
          rw [← map_blockId]
          exact List.mem_map_of_mem member)
      exact accounted.owned.positive .gpu inside
    obtain ⟨objects, made, owned⟩ := accounted.owned.start table here room fun _ => rfl
    have sets := accounted.edit start (fun id absent => absurd absent List.not_mem_nil) step' lies
      owned
    have none : gpu.copyOnWrites = [] :=
      (step.copyOnWrites_eq ((cdiv_le_iff accounted.positive _ _).mpr lies.length_le)).trans
        (accounted.clear .gpu)
    have same : ({ manager.blockAllocator with gpu := { gpu with copyOnWrites := [] } } :
        CpuGpuBlockAllocator) = { manager.blockAllocator with gpu := gpu } := by
      rw [← none]
    rw [same] at sets
    have lies' : table.LiesOn .gpu { manager.blockAllocator with gpu := gpu }
        manager.blockSize seq.data.getTokenIds := lies
    have fresh : ∀ id ∈ table.physicalBlockIds, id ∉ references manager.blockTables := by
      intro id member shared
      obtain ⟨index, there⟩ := List.getElem?_of_mem member
      cases step.kept there shared
    have once' := List.nodup_cons.mp once
    obtain ⟨final, run', accounted', tables, all, free, size, watermark⟩ :=
      Accounted.forkTables_eq rest sets.accounted lies'
        (fun id member => mem_references.mpr ⟨seq.seqId, table, by
          rw [sets.tables, Dict.get?_set, if_pos rfl], member⟩)
        once'.2
        (by
          intro other member
          have different : other.seqId ≠ seq.seqId := fun same =>
            once'.1 (same ▸ List.mem_map_of_mem member)
          rw [sets.tables, Dict.get?_set, if_neg different]
          exact absent other (List.mem_cons_of_mem _ member))
    refine .inl ⟨final, table, ?_, accounted', tables, lies'.congr (all .gpu), fresh,
      step.length_le_used, fun device => (all device).trans (sets.all device), ?_, size, watermark⟩
    · rw [run]
      simp only [Except.bind, made]
      exact run'
    · have taken := step.free
      have kept := congrArg List.length (free .gpu)
      change _ = List.length gpu.freeBlockIndices at kept
      change final.blockAllocator.gpu.freeBlockIndices.length = _ at kept
      rw [kept]
      exact taken
  · exact .inr ⟨by rw [run]; rfl, few⟩

end Allocations

end BlockSpaceManagerV2

end ScalarLM.Cache
