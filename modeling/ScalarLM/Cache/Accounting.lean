import ScalarLM.Cache.BlockManager

/-! The books of the manager: every block is free or counted as often as tables hold it. -/

namespace ScalarLM.Cache

open Engine

section Tables

theorem Holds.flatMap_tokenIds {blockSize : Nat} {blocks : List Block} {tokens : List Nat}
    (holds : Holds blockSize blocks tokens) : blocks.flatMap Block.tokenIds = tokens := by
  have cut : blocks.map Block.tokenIds =
      (List.range blocks.length).map (Blocks.block blockSize tokens) := by
    refine List.ext_getElem (by simp) fun index inside _ => ?_
    rw [List.length_map] at inside
    rw [List.getElem_map, List.getElem_map, List.getElem_range]
    exact holds.cut index _ (List.getElem?_eq_getElem inside)
  rw [List.flatMap_def, cut, ← List.flatMap_def]
  exact (Blocks.join_block blockSize blocks.length tokens).trans
    (List.take_of_length_le holds.room)

def BlockTable.getAllTokenIds (table : BlockTable) : List Nat :=
  table.blocks.blocks.flatMap Block.tokenIds

namespace BlockTable.LiesOn

variable {device : Device} {allocator : CpuGpuBlockAllocator} {blockSize : Nat}
  {table : BlockTable} {tokens : List Nat}

theorem getAllTokenIds_eq (lies : LiesOn device allocator blockSize table tokens) :
    table.getAllTokenIds = tokens :=
  lies.holds.flatMap_tokenIds

theorem own (lies : LiesOn device allocator blockSize table tokens) :
    LiesOn device allocator blockSize table table.getAllTokenIds :=
  lies.getAllTokenIds_eq.symm ▸ lies

theorem congr (lies : LiesOn device allocator blockSize table tokens)
    {allocator' : CpuGpuBlockAllocator}
    (all : (allocator'.on device).allBlockIndices = (allocator.on device).allBlockIndices) :
    LiesOn device allocator' blockSize table tokens :=
  ⟨lies.holds, lies.counted, lies.once, by rw [all]; exact lies.within, lies.some⟩

theorem length_le (lies : LiesOn device allocator blockSize table tokens) :
    tokens.length ≤ table.physicalBlockIds.length * blockSize := by
  have length : table.physicalBlockIds.length = table.blocks.blocks.length := by
    rw [physicalBlockIds, table.blocks.listed, List.length_map]
  rw [length]
  exact lies.holds.room

end BlockTable.LiesOn

theorem CpuGpuBlockAllocator.on_update (allocator : CpuGpuBlockAllocator) (device other : Device)
    (changed : NaiveBlockAllocator) : (allocator.update device changed).on other =
      if other = device then changed else allocator.on other := by
  cases device <;> cases other <;> rfl

def references (tables : Dict Nat BlockTable) : Multiset BlockId :=
  tables.gather BlockTable.physicalBlockIds

theorem references_set (tables : Dict Nat BlockTable) (key : Nat) (table : BlockTable) :
    references (tables.set key table) =
      references (tables.erase key) + ↑table.physicalBlockIds :=
  Dict.gather_set

theorem references_found {tables : Dict Nat BlockTable} {key : Nat} {table : BlockTable}
    (found : tables.get? key = some table) :
    references tables = references (tables.erase key) + ↑table.physicalBlockIds :=
  Dict.gather_found found

theorem references_absent {tables : Dict Nat BlockTable} {key : Nat}
    (absent : tables.get? key = none) : references (tables.erase key) = references tables :=
  Dict.gather_absent absent

theorem mem_references {tables : Dict Nat BlockTable} {id : BlockId} :
    id ∈ references tables ↔
      ∃ key table, tables.get? key = some table ∧ id ∈ table.physicalBlockIds :=
  Dict.mem_gather

end Tables

section Invariant

theorem NaiveBlockAllocator.Books.frame {allocator : NaiveBlockAllocator}
    {others : Multiset BlockId} {ids edited : List BlockId}
    (books : allocator.Books (others + ↑ids))
    (outside : ∀ id ∈ ids, id ∉ allocator.allBlockIndices)
    (outside' : ∀ id ∈ edited, id ∉ allocator.allBlockIndices) :
    allocator.Books (others + ↑edited) := by
  refine References.congr books fun id member => ?_
  rw [Multiset.count_add, Multiset.count_add, Multiset.coe_count, Multiset.coe_count,
    List.count_eq_zero.mpr fun listed => outside id listed member,
    List.count_eq_zero.mpr fun listed => outside' id listed member]

namespace BlockSpaceManagerV2

structure Numbered (allocator : CpuGpuBlockAllocator) : Prop where
  gpu : allocator.gpu.allBlockIndices = List.range allocator.gpu.allBlockIndices.length
  cpu : allocator.cpu.allBlockIndices =
    List.range' allocator.gpu.allBlockIndices.length allocator.cpu.allBlockIndices.length

theorem Numbered.mem_gpu {allocator : CpuGpuBlockAllocator} (numbered : Numbered allocator)
    {id : BlockId} (member : id ∈ allocator.gpu.allBlockIndices) :
    id < allocator.gpu.allBlockIndices.length := by
  rw [numbered.gpu] at member
  exact List.mem_range.mp member

theorem Numbered.mem_cpu {allocator : CpuGpuBlockAllocator} (numbered : Numbered allocator)
    {id : BlockId} (member : id ∈ allocator.cpu.allBlockIndices) :
    allocator.gpu.allBlockIndices.length ≤ id := by
  rw [numbered.cpu] at member
  exact (List.mem_range'_1.mp member).1

theorem Numbered.apart {allocator : CpuGpuBlockAllocator} (numbered : Numbered allocator)
    {device other : Device} {id : BlockId} (here : id ∈ (allocator.on device).allBlockIndices)
    (there : id ∈ (allocator.on other).allBlockIndices) : device = other := by
  cases device <;> cases other
  · rfl
  · exact absurd (numbered.mem_gpu there) (Nat.not_lt.mpr (numbered.mem_cpu here))
  · exact absurd (numbered.mem_gpu here) (Nat.not_lt.mpr (numbered.mem_cpu there))
  · rfl

theorem Numbered.congr {allocator allocator' : CpuGpuBlockAllocator}
    (numbered : Numbered allocator) (all : ∀ device, (allocator'.on device).allBlockIndices =
      (allocator.on device).allBlockIndices) : Numbered allocator' := by
  have gpu : allocator'.gpu.allBlockIndices = allocator.gpu.allBlockIndices := all .gpu
  have cpu : allocator'.cpu.allBlockIndices = allocator.cpu.allBlockIndices := all .cpu
  exact ⟨by rw [gpu]; exact numbered.gpu, by rw [gpu, cpu]; exact numbered.cpu⟩

/-- The counts of both devices are those of the references from tables, each table holds its
tokens on one of the devices, and its blocks are objects that no other table has. -/
structure Accounted (manager : BlockSpaceManagerV2) : Prop where
  positive : 0 < manager.blockSize
  size : ∀ device, (manager.blockAllocator.on device).blockSize = manager.blockSize
  books : ∀ device, (manager.blockAllocator.on device).Books (references manager.blockTables)
  numbered : Numbered manager.blockAllocator
  clear : ∀ device, (manager.blockAllocator.on device).copyOnWrites = []
  tables : ∀ key table, manager.blockTables.get? key = some table →
    ∃ device, table.LiesOn device manager.blockAllocator manager.blockSize table.getAllTokenIds
  owned : manager.blockObjects.Owned manager.blockAllocator manager.blockTables

variable {manager : BlockSpaceManagerV2}

theorem accounted_init (blockSize numGpuBlocks numCpuBlocks watermarkBlocks : Nat)
    (positive : 0 < blockSize) :
    (init blockSize numGpuBlocks numCpuBlocks watermarkBlocks).Accounted where
  positive := positive
  size device := by cases device <;> rfl
  books device := by
    cases device
    · exact NaiveBlockAllocator.books_init _ List.nodup_range' blockSize
    · exact NaiveBlockAllocator.books_init _ List.nodup_range blockSize
  numbered := by
    constructor
    · change List.range numGpuBlocks = List.range (List.range numGpuBlocks).length
      rw [List.length_range]
    · change List.range' numGpuBlocks numCpuBlocks = List.range'
        (List.range numGpuBlocks).length (List.range' numGpuBlocks numCpuBlocks).length
      rw [List.length_range, List.length_range']
  clear device := by cases device <;> rfl
  tables key table found := by cases found
  owned := BlockObjects.Owned.create numGpuBlocks numCpuBlocks blockSize

theorem Accounted.setTable (accounted : manager.Accounted) {key : Nat} {table : BlockTable}
    {allocator : CpuGpuBlockAllocator} {objects : BlockObjects} {device : Device}
    (books : ∀ other, (allocator.on other).Books
      (references (manager.blockTables.erase key) + ↑table.physicalBlockIds))
    (all : ∀ other, (allocator.on other).allBlockIndices =
      (manager.blockAllocator.on other).allBlockIndices)
    (size : ∀ other, (allocator.on other).blockSize =
      (manager.blockAllocator.on other).blockSize)
    (clear : ∀ other, (allocator.on other).copyOnWrites = []) {tokens : List Nat}
    (lies : table.LiesOn device allocator manager.blockSize tokens)
    (owned : objects.Owned allocator (manager.blockTables.set key table)) :
    (manager.setTable key table allocator objects).Accounted where
  positive := accounted.positive
  size other := (size other).trans (accounted.size other)
  books other := by
    have step := books other
    rwa [← references_set] at step
  numbered := accounted.numbered.congr all
  clear := clear
  tables other found there := by
    have place := (Dict.get?_set manager.blockTables key other table).symm.trans there
    split at place
    · rw [← Option.some.inj place]
      exact ⟨device, lies.own⟩
    · obtain ⟨own, before⟩ := accounted.tables other found place
      exact ⟨own, before.congr (all own)⟩
  owned := owned

end BlockSpaceManagerV2

end Invariant

end ScalarLM.Cache
