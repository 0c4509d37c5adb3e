import ScalarLM.Cache.TableTokens
import ScalarLM.Lib.Outcome

/-! Tables that are made, shared, given up and moved to the other device. -/

namespace ScalarLM.Cache

section Cutting

variable {size : Nat}

theorem cdiv_eq (positive : 0 < size) (a : Nat) :
    cdiv a size = a / size + if a % size = 0 then 0 else 1 := by
  have split := Nat.div_add_mod a size
  have below := Nat.mod_lt a positive
  rw [Nat.mul_comm] at split
  refine Nat.le_antisymm ((cdiv_le_iff positive a _).mpr ?_) ?_
  · rw [Nat.add_mul]
    split_ifs <;> omega
  · split_ifs with even
    · exact div_le_cdiv positive a
    · refine (lt_cdiv_iff positive a _).mpr ?_
      omega

theorem chunkList_split (positive : 0 < size) (xs : List Nat) :
    (chunkList xs size).filter (fun chunk => chunk.length = size) =
        (List.range (xs.length / size)).map (Blocks.block size xs) ∧
      (chunkList xs size).filter (fun chunk => chunk.length ≠ size) =
        if xs.length % size = 0 then [] else [Blocks.block size xs (xs.length / size)] := by
  have split := Nat.div_add_mod xs.length size
  rw [Nat.mul_comm] at split
  have full : ∀ chunk ∈ (List.range (xs.length / size)).map (Blocks.block size xs),
      chunk.length = size := by
    intro chunk member
    obtain ⟨index, inside, rfl⟩ := List.mem_map.mp member
    have past : (index + 1) * size ≤ xs.length / size * size :=
      Nat.mul_le_mul_right size (List.mem_range.mp inside)
    rw [Nat.add_mul] at past
    rw [length_block]
    omega
  have front : (chunkList xs size) = (List.range (xs.length / size)).map (Blocks.block size xs) ++
      if xs.length % size = 0 then [] else [Blocks.block size xs (xs.length / size)] := by
    rw [chunkList, cdiv_eq positive]
    split_ifs with even
    · rw [Nat.add_zero, List.append_nil]
    · rw [List.range_succ, List.map_append, List.map_singleton]
  have last : xs.length % size ≠ 0 →
      (Blocks.block size xs (xs.length / size)).length ≠ size := by
    intro rest
    have below := Nat.mod_lt xs.length positive
    rw [length_block]
    omega
  rw [front, List.filter_append, List.filter_append]
  constructor
  · rw [List.filter_eq_self.mpr (by simpa using full)]
    split_ifs with even
    · simp
    · simp [last even]
  · rw [List.filter_eq_nil_iff.mpr (by simpa using full), List.nil_append]
    split_ifs with even
    · rfl
    · simp [last even]

end Cutting

section Making

variable {others : Multiset BlockId}

theorem NaiveBlockAllocator.allocateBlockIds_outcome (count : Nat)
    (allocator : NaiveBlockAllocator) (ids : List BlockId)
    (books : allocator.Books (others + ↑ids)) :
    (∃ added allocator', allocator.allocateBlockIds count = .ok (added, allocator') ∧
      added.length = count ∧ Extends others allocator ids allocator' (ids ++ added) count) ∨
    (allocator.allocateBlockIds count = .error .noFreeBlocks ∧
      allocator.freeBlockIndices.length < count) := by
  induction count generalizing allocator ids with
  | zero =>
      refine .inl ⟨[], allocator, rfl, rfl, ?_⟩
      rw [List.append_nil]
      exact .refl books
  | succ count ih =>
      cases free : allocator.freeBlockIndices with
      | nil =>
          refine .inr ⟨?_, Nat.succ_pos count⟩
          rw [allocateBlockIds, allocateBlockId_nil free]
          rfl
      | cons id rest =>
          have step := Extends.take books free
          have unfolded : allocator.allocateBlockIds (count + 1) =
              ((allocator.taken id).allocateBlockIds count).map fun result =>
                (id :: result.1, result.2) := by
            rw [allocateBlockIds, allocateBlockId_eq books free]
            rfl
          rw [unfolded]
          rcases ih (allocator.taken id) (ids ++ [id]) step.books with
            ⟨added, allocator', run, length, later⟩ | ⟨run, few⟩
          · refine .inl ⟨id :: added, allocator', by rw [run]; rfl,
              by rw [List.length_cons, length], ?_⟩
            rw [Nat.add_comm, List.append_cons]
            exact step.trans later
          · refine .inr ⟨by rw [run]; rfl, ?_⟩
            have used := step.free
            rw [free] at used
            omega

theorem NaiveBlockAllocator.allocateImmutableBlocks_outcome (chunks : List (List Nat))
    (allocator : NaiveBlockAllocator) (ids : List BlockId)
    (books : allocator.Books (others + ↑ids))
    (short : ∀ chunk ∈ chunks, chunk.length ≤ allocator.blockSize) :
    (∃ blocks allocator', allocator.allocateImmutableBlocks chunks = .ok (blocks, allocator') ∧
      blocks.map Block.tokenIds = chunks ∧
      Extends others allocator ids allocator' (ids ++ blocks.map Block.blockId) chunks.length) ∨
    (allocator.allocateImmutableBlocks chunks = .error .noFreeBlocks ∧
      allocator.freeBlockIndices.length < chunks.length) := by
  rcases allocator.allocateBlockIds_outcome chunks.length ids books with
    ⟨added, allocator', run, length, step⟩ | ⟨run, few⟩
  · refine .inl ⟨(chunks.zip added).map fun pair => ⟨pair.1, pair.2⟩, allocator', ?_, ?_, ?_⟩
    · have made := mapM_ok (fun pair : List Nat × BlockId =>
          Block.init allocator'.blockSize pair.1 pair.2) (fun pair => ⟨pair.1, pair.2⟩)
          (chunks.zip added) fun pair member => by
        have fits := short pair.1 (List.of_mem_zip member).1
        rw [← step.size] at fits
        exact if_pos fits
      rw [allocateImmutableBlocks, run]
      simp only [bind, Except.bind, made]
      rfl
    · rw [List.map_map]
      exact List.map_fst_zip (Nat.le_of_eq length.symm)
    · have same : ((chunks.zip added).map fun pair => (⟨pair.1, pair.2⟩ : Block)).map
          Block.blockId = added := by
        rw [List.map_map]
        exact List.map_snd_zip (Nat.le_of_eq length)
      rw [same]
      exact step
  · refine .inr ⟨?_, few⟩
    rw [allocateImmutableBlocks, run]
    rfl

theorem NaiveBlockAllocator.allocateImmutableBlock_eq (allocator : NaiveBlockAllocator)
    {held : Multiset BlockId} (books : allocator.Books held) (tokenIds : List Nat)
    (short : tokenIds.length ≤ allocator.blockSize) {id : BlockId} {rest : List BlockId}
    (free : allocator.freeBlockIndices = id :: rest) :
    allocator.allocateImmutableBlock tokenIds = .ok (⟨tokenIds, id⟩, allocator.taken id) := by
  have fresh := books.fresh free
  have room : (⟨[], id⟩ : Block).tokenIds.length + tokenIds.length ≤
      (allocator.taken id).blockSize := by simpa [taken] using short
  have alone := cow_own (books.taken free) fresh.1 fresh.2
  rw [allocateImmutableBlock, allocateMutableBlock, allocateBlockId_eq books free]
  simp only [bind, Except.bind, Block.init, List.length_nil, Nat.zero_le, if_true, pure,
    Except.pure, Block.appendTokenIds_eq _ room, alone]
  rfl

theorem NaiveBlockAllocator.allocateImmutableBlock_nil (allocator : NaiveBlockAllocator)
    (tokenIds : List Nat) (none : allocator.freeBlockIndices = []) :
    allocator.allocateImmutableBlock tokenIds = .error .noFreeBlocks := by
  rw [allocateImmutableBlock, allocateMutableBlock, allocateBlockId_nil none]
  rfl

variable {blockSize : Nat}

theorem BlockTable.allocateBlocks_outcome (positive : 0 < blockSize)
    (allocator : NaiveBlockAllocator) (size : allocator.blockSize = blockSize)
    (books : allocator.Books others) (tokenIds : List Nat) :
    (∃ blocks allocator',
      allocateBlocksForTokenIds allocator blockSize tokenIds = .ok (blocks, allocator') ∧
      blocks.map Block.tokenIds = chunkList tokenIds blockSize ∧
      Extends others allocator [] allocator' (blocks.map Block.blockId)
        (cdiv tokenIds.length blockSize)) ∨
    (allocateBlocksForTokenIds allocator blockSize tokenIds = .error .noFreeBlocks ∧
      allocator.freeBlockIndices.length < cdiv tokenIds.length blockSize) := by
  obtain ⟨full, tail⟩ := chunkList_split positive tokenIds
  have books' : allocator.Books (others + ↑([] : List BlockId)) := by
    rw [Multiset.coe_nil, Multiset.add_zero]
    exact books
  have short : ∀ chunk ∈ (List.range (tokenIds.length / blockSize)).map
      (Blocks.block blockSize tokenIds), chunk.length ≤ allocator.blockSize := by
    intro chunk member
    obtain ⟨index, _, rfl⟩ := List.mem_map.mp member
    rw [length_block, size]
    exact Nat.min_le_left _ _
  have all : chunkList tokenIds blockSize = (List.range (tokenIds.length / blockSize)).map
      (Blocks.block blockSize tokenIds) ++ if tokenIds.length % blockSize = 0 then []
        else [Blocks.block blockSize tokenIds (tokenIds.length / blockSize)] := by
    rw [chunkList, cdiv_eq positive]
    split_ifs
    · rw [Nat.add_zero, List.append_nil]
    · rw [List.range_succ, List.map_append, List.map_singleton]
  rw [all, cdiv_eq positive, allocateBlocksForTokenIds]
  simp only [full, tail]
  rcases allocator.allocateImmutableBlocks_outcome _ [] books' short with
    ⟨blocks, allocator', run, made, step⟩ | ⟨run, few⟩
  · simp only [run, bind, Except.bind]
    rw [List.length_map, List.length_range, List.nil_append] at step
    split_ifs with even
    · rw [Nat.add_zero, List.append_nil]
      exact .inl ⟨blocks, allocator', rfl, made, step⟩
    · have last : (Blocks.block blockSize tokenIds (tokenIds.length / blockSize)).length ≤
          allocator'.blockSize := by
        rw [length_block, step.size, size]
        exact Nat.min_le_left _ _
      cases free : allocator'.freeBlockIndices with
      | nil =>
          refine .inr ⟨?_, ?_⟩
          · have failed := allocator'.allocateImmutableBlock_nil
              (Blocks.block blockSize tokenIds (tokenIds.length / blockSize)) free
            rw [NaiveBlockAllocator.allocateImmutableBlock] at failed
            rw [NaiveBlockAllocator.allocateMutableBlock,
              NaiveBlockAllocator.allocateBlockId_nil free]
            rfl
          · rw [step.free, free, List.length_nil]
            omega
      | cons id rest =>
          have added := allocator'.allocateImmutableBlock_eq step.books _ last free
          refine .inl ⟨blocks ++ [⟨Blocks.block blockSize tokenIds (tokenIds.length / blockSize),
            id⟩], allocator'.taken id, ?_, ?_, ?_⟩
          · rw [NaiveBlockAllocator.allocateImmutableBlock] at added
            revert added
            cases allocator'.allocateMutableBlock with
            | error problem =>
                intro added
                cases added
            | ok result =>
                intro added
                simp only [bind, Except.bind] at added ⊢
                rw [added]
                rfl
          · rw [List.map_append, made]
            rfl
          · rw [List.map_append]
            exact step.trans (.take step.books free)
  · refine .inr ⟨by simp only [run, bind, Except.bind], ?_⟩
    rw [List.length_map, List.length_range] at few
    omega

theorem holds_chunks (positive : 0 < blockSize) {blocks : List Block} {tokens : List Nat}
    (made : blocks.map Block.tokenIds = chunkList tokens blockSize) :
    Holds blockSize blocks tokens := by
  have length := congrArg List.length made
  rw [List.length_map, chunkList, List.length_map, List.length_range] at length
  refine ⟨?_, ?_⟩
  · rw [length]
    exact le_cdiv_mul positive tokens.length
  · intro index block there
    have found : (blocks.map Block.tokenIds)[index]? = some block.tokenIds := by
      rw [List.getElem?_map, there, Option.map_some]
    rw [made, getElem?_chunkList] at found
    split at found
    · exact (Option.some.inj found).symm
    · cases found

theorem BlockTable.allocate_outcome (positive : 0 < blockSize) (allocator : CpuGpuBlockAllocator)
    (size : allocator.gpu.blockSize = blockSize) (books : allocator.gpu.Books others)
    (tokenIds : List Nat) (some : tokenIds ≠ []) :
    (∃ table gpu, empty.allocate allocator blockSize tokenIds =
        .ok (table, { allocator with gpu := gpu }) ∧
      Extends others allocator.gpu [] gpu table.physicalBlockIds
        (cdiv tokenIds.length blockSize) ∧
      LiesOn .gpu { allocator with gpu := gpu } blockSize table tokenIds) ∨
    (empty.allocate allocator blockSize tokenIds = .error .noFreeBlocks ∧
      allocator.gpu.freeBlockIndices.length < cdiv tokenIds.length blockSize) := by
  have start : (empty.isAllocated || tokenIds.isEmpty) = false := by
    simpa [isAllocated, empty, BlockList.ofBlocks] using some
  rw [allocate, start]
  rcases allocateBlocks_outcome positive allocator.gpu size books tokenIds with
    ⟨blocks, gpu, run, made, step⟩ | ⟨run, few⟩
  · refine .inl ⟨⟨.ofBlocks blocks, tokenIds.length⟩, gpu, ?_, step, ?_⟩
    · simp only [run, bind, Except.bind]
      rfl
    · refine ⟨holds_chunks positive made, rfl, step.nodup List.nodup_nil,
        step.inside fun id absent => absurd absent List.not_mem_nil, ?_⟩
      intro none
      have length := congrArg List.length made
      have need : 0 < cdiv tokenIds.length blockSize := by
        rw [lt_cdiv_iff positive, Nat.zero_mul]
        exact List.length_pos_iff.mpr some
      change blocks = [] at none
      rw [none, chunkList, List.length_map, List.length_map, List.length_range] at length
      exact absurd length (by simp; omega)
  · refine .inr ⟨?_, few⟩
    simp only [run, bind, Except.bind]
    rfl

end Making

section Sharing

structure NaiveBlockAllocator.Alike (before after : NaiveBlockAllocator) : Prop where
  all : after.allBlockIndices = before.allBlockIndices
  size : after.blockSize = before.blockSize
  copies : after.copyOnWrites = before.copyOnWrites

namespace NaiveBlockAllocator

theorem Alike.refl (allocator : NaiveBlockAllocator) : allocator.Alike allocator := ⟨rfl, rfl, rfl⟩

theorem Alike.trans {before middle after : NaiveBlockAllocator} (first : before.Alike middle)
    (second : middle.Alike after) : before.Alike after :=
  ⟨second.all.trans first.all, second.size.trans first.size, second.copies.trans first.copies⟩

variable {held others : Multiset BlockId}

theorem fork_eq (blocks : List Block) (allocator : NaiveBlockAllocator)
    (books : allocator.Books held)
    (inside : ∀ block ∈ blocks, block.blockId ∈ allocator.allBlockIndices)
    (used : ∀ block ∈ blocks, block.blockId ∈ held)
    (short : ∀ block ∈ blocks, block.tokenIds.length ≤ allocator.blockSize) :
    ∃ allocator', allocator.fork blocks = .ok (blocks, allocator') ∧
      allocator'.Books (↑(blocks.map Block.blockId) + held) ∧ allocator.Alike allocator' ∧
      allocator'.freeBlockIndices = allocator.freeBlockIndices := by
  induction blocks generalizing allocator held with
  | nil =>
      refine ⟨allocator, rfl, ?_, .refl allocator, rfl⟩
      rwa [List.map_nil, Multiset.coe_nil, Multiset.zero_add]
  | cons block rest ih =>
      have within := inside block List.mem_cons_self
      have some := used block List.mem_cons_self
      have noted := books.get? within
      have counted : held.count block.blockId + 1 ≠ 1 := by
        have := Multiset.count_pos.mpr some
        omega
      have shared := References.share books within some fun other =>
        Dict.get?_set allocator.refcounter.refcounts block.blockId other
          (held.count block.blockId + 1)
      obtain ⟨allocator', run, books', alike, free⟩ := ih
        { allocator with refcounter := ⟨allocator.refcounter.refcounts.set block.blockId
          (held.count block.blockId + 1)⟩ } shared
        (fun other member => inside other (List.mem_cons_of_mem _ member))
        (fun other member => Multiset.mem_cons_of_mem (used other (List.mem_cons_of_mem _ member)))
        (fun other member => short other (List.mem_cons_of_mem _ member))
      refine ⟨allocator', ?_, ?_, ⟨alike.all, alike.size, alike.copies⟩, free⟩
      · simp only [fork, RefCounter.incr, noted, bind, Except.bind, if_neg counted, Block.init,
          if_pos (short block List.mem_cons_self), run]
        rfl
      · rw [List.map_cons, ← Multiset.cons_coe, Multiset.cons_add, ← Multiset.add_cons]
        exact books'

theorem swapOut_eq (blocks : List Block) (allocator : NaiveBlockAllocator)
    (books : allocator.Books (↑(blocks.map Block.blockId) + others))
    (inside : ∀ block ∈ blocks, block.blockId ∈ allocator.allBlockIndices) :
    ∃ allocator', allocator.swapOut blocks = .ok allocator' ∧ allocator'.Books others ∧
      allocator.Alike allocator' := by
  induction blocks generalizing allocator with
  | nil =>
      refine ⟨allocator, rfl, ?_, .refl allocator⟩
      rwa [List.map_nil, Multiset.coe_nil, Multiset.zero_add] at books
  | cons block rest ih =>
      rw [List.map_cons, ← Multiset.cons_coe, Multiset.cons_add] at books
      have within := inside block List.mem_cons_self
      obtain ⟨allocator', run, books', alike⟩ := ih _ (books.released within) fun other member =>
        inside other (List.mem_cons_of_mem _ member)
      refine ⟨allocator', ?_, books', ⟨alike.all, alike.size, alike.copies⟩⟩
      rw [swapOut, freeBlockId_eq books within]
      exact run

theorem swapIn_outcome (blocks : List Block) (allocator : NaiveBlockAllocator) (ids : List BlockId)
    (books : allocator.Books (others + ↑ids))
    (short : ∀ block ∈ blocks, block.tokenIds.length ≤ allocator.blockSize) :
    (∃ moved allocator', allocator.swapIn blocks = .ok (moved, allocator') ∧
      moved.map Block.tokenIds = blocks.map Block.tokenIds ∧
      allocator'.copyOnWrites = allocator.copyOnWrites ∧
      Extends others allocator ids allocator' (ids ++ moved.map Block.blockId) blocks.length) ∨
    (allocator.swapIn blocks = .error .noFreeBlocks ∧
      allocator.freeBlockIndices.length < blocks.length) := by
  induction blocks generalizing allocator ids with
  | nil =>
      refine .inl ⟨[], allocator, rfl, rfl, rfl, ?_⟩
      rw [List.map_nil, List.append_nil]
      exact .refl books
  | cons block rest ih =>
      have both : allocator.swapInBlock block =
          allocator.allocateImmutableBlock block.tokenIds := by
        rw [swapInBlock]
        split <;> rfl
      cases free : allocator.freeBlockIndices with
      | nil =>
          refine .inr ⟨?_, Nat.succ_pos _⟩
          rw [swapIn, both, allocateImmutableBlock_nil _ _ free]
          rfl
      | cons id later =>
          have fits := short block List.mem_cons_self
          have step := Extends.take books free
          have unfolded : allocator.swapIn (block :: rest) =
              ((allocator.taken id).swapIn rest).map fun result =>
                (⟨block.tokenIds, id⟩ :: result.1, result.2) := by
            rw [swapIn, both, allocateImmutableBlock_eq _ books _ fits free]
            rfl
          rw [unfolded]
          rcases ih (allocator.taken id) (ids ++ [id]) step.books
            (fun other member => short other (List.mem_cons_of_mem _ member)) with
            ⟨moved, allocator', run, same, copies, step'⟩ | ⟨run, few⟩
          · refine .inl ⟨⟨block.tokenIds, id⟩ :: moved, allocator', by rw [run]; rfl, ?_, copies,
              ?_⟩
            · rw [List.map_cons, List.map_cons, same]
            · rw [List.map_cons, List.append_cons, List.length_cons, Nat.add_comm]
              exact step.trans step'
          · refine .inr ⟨by rw [run]; rfl, ?_⟩
            have used := step.free
            rw [free] at used
            simp only [List.length_cons] at used ⊢
            omega

end NaiveBlockAllocator

end Sharing

end ScalarLM.Cache
