import ScalarLM.Cache.BlockAllocator
import ScalarLM.Lib.Blocks
import ScalarLM.Lib.Paging

/-! The table of one sequence's cache blocks, and the allocators of both devices. -/

namespace ScalarLM.Cache

def cdiv (a b : Nat) : Nat := (a + b - 1) / b

def chunkList (xs : List Nat) (chunkSize : Nat) : List (List Nat) :=
  (List.range (cdiv xs.length chunkSize)).map (Blocks.block chunkSize xs)

section Devices

inductive Device where
  | cpu
  | gpu
  deriving DecidableEq, Repr

structure CpuGpuBlockAllocator where
  cpu : NaiveBlockAllocator
  gpu : NaiveBlockAllocator

namespace CpuGpuBlockAllocator

def create (numGpuBlocks numCpuBlocks blockSize : Nat) : CpuGpuBlockAllocator where
  cpu := .init (List.range' numGpuBlocks numCpuBlocks) blockSize
  gpu := .init (List.range numGpuBlocks) blockSize

variable (allocator : CpuGpuBlockAllocator)

def on : Device → NaiveBlockAllocator
  | .cpu => allocator.cpu
  | .gpu => allocator.gpu

def update : Device → NaiveBlockAllocator → CpuGpuBlockAllocator
  | .cpu, changed => { allocator with cpu := changed }
  | .gpu, changed => { allocator with gpu := changed }

def deviceOf (id : BlockId) : Except CacheError Device :=
  if id ∈ allocator.gpu.allBlockIndices then .ok .gpu
  else if id ∈ allocator.cpu.allBlockIndices then .ok .cpu
  else .error .missing

def free (block : Block) : Except CacheError CpuGpuBlockAllocator := do
  let device ← allocator.deviceOf block.blockId
  let changed ← (allocator.on device).freeBlockId block.blockId
  return allocator.update device changed

/-- The blocks come with the last one, whose device makes the copies. -/
def fork (blocks : List Block) : Except CacheError (List Block × CpuGpuBlockAllocator) :=
  match blocks.getLast? with
  | none => .error .missing
  | some last => do
    let device ← allocator.deviceOf last.blockId
    let (forked, changed) ← (allocator.on device).fork blocks
    return (forked, allocator.update device changed)

def swap (blocks : List Block) (source target : Device) :
    Except CacheError (List Block × Dict BlockId BlockId × CpuGpuBlockAllocator) := do
  let emptied ← (allocator.on source).swapOut blocks
  let allocator := allocator.update source emptied
  let (moved, filled) ← (allocator.on target).swapIn blocks
  return (moved, .ofAssignments ((blocks.map Block.blockId).zip (moved.map Block.blockId)),
    allocator.update target filled)

end CpuGpuBlockAllocator

end Devices

section Tables

structure BlockList where
  blocks : List Block
  blockIds : List BlockId
  listed : blockIds = blocks.map Block.blockId

namespace BlockList

def ofBlocks (blocks : List Block) : BlockList := ⟨blocks, blocks.map Block.blockId, rfl⟩

variable (list : BlockList)

def append (block : Block) : BlockList where
  blocks := list.blocks ++ [block]
  blockIds := list.blockIds ++ [block.blockId]
  listed := by rw [list.listed, List.map_append, List.map_singleton]

theorem listed_set {index : Nat} {block : Block} (there : list.blocks[index]? = some block)
    (changed : Block) :
    (if block.blockId ≠ changed.blockId then list.blockIds.set index changed.blockId
      else list.blockIds) = (list.blocks.set index changed).map Block.blockId := by
  rw [list.listed, List.map_set]
  split
  · rfl
  · rename_i same
    obtain ⟨inside, found⟩ := List.getElem?_eq_some_iff.mp there
    have within : index < (list.blocks.map Block.blockId).length := by simpa using inside
    have place : (list.blocks.map Block.blockId)[index] = block.blockId := by simp [found]
    rw [← not_not.mp same, ← place, List.set_getElem_self]

def replaced {index : Nat} {block : Block} (there : list.blocks[index]? = some block)
    (changed : Block) : BlockList where
  blocks := list.blocks.set index changed
  blockIds := if block.blockId ≠ changed.blockId then list.blockIds.set index changed.blockId
    else list.blockIds
  listed := list.listed_set there changed

theorem replaced_blockIds {index : Nat} {block : Block}
    (there : list.blocks[index]? = some block) (changed : Block) :
    (list.replaced there changed).blockIds = list.blockIds.set index changed.blockId := by
  rw [(list.replaced there changed).listed, list.listed, ← List.map_set]
  rfl

def appendTokenIds (allocator : NaiveBlockAllocator) (index : Nat) (tokenIds : List Nat) :
    Except CacheError (BlockList × NaiveBlockAllocator) :=
  match there : list.blocks[index]? with
  | none => .error .missing
  | some block => do
    let (changed, allocator) ← block.appendTokenIds allocator tokenIds
    return (list.replaced there changed, allocator)

theorem appendTokenIds_eq {index : Nat} {block : Block}
    (there : list.blocks[index]? = some block) (allocator : NaiveBlockAllocator)
    (tokenIds : List Nat) :
    list.appendTokenIds allocator index tokenIds =
      (block.appendTokenIds allocator tokenIds).map fun result =>
        (list.replaced there result.1, result.2) := by
  unfold appendTokenIds
  split
  · rename_i absent
    cases absent.symm.trans there
  · rename_i other found
    obtain rfl : other = block := Option.some.inj (found.symm.trans there)
    rfl

end BlockList

/-- There is no sliding window: a table keeps all its blocks while it grows. -/
structure BlockTable where
  blocks : BlockList
  numFullSlots : Nat

namespace BlockTable

def empty : BlockTable := ⟨.ofBlocks [], 0⟩

def getNumRequiredBlocks (tokenIds : List Nat) (blockSize numLookaheadSlots : Nat) : Nat :=
  cdiv (tokenIds.length + numLookaheadSlots) blockSize

/-- All chunks but the last are full, and blocks for them are taken together. -/
def allocateBlocksForTokenIds (allocator : NaiveBlockAllocator) (blockSize : Nat)
    (tokenIds : List Nat) : Except CacheError (List Block × NaiveBlockAllocator) := do
  let chunks := chunkList tokenIds blockSize
  let blockTokenIds := chunks.filter fun chunk => chunk.length = blockSize
  let tailTokenIds := chunks.filter fun chunk => chunk.length ≠ blockSize
  let (blocks, allocator) ← allocator.allocateImmutableBlocks blockTokenIds
  match tailTokenIds with
  | [] => return (blocks, allocator)
  | [curTokenIds] => do
    let (block, allocator) ← allocator.allocateMutableBlock
    let (block, allocator) ← block.appendTokenIds allocator curTokenIds
    return (blocks ++ [block], allocator)
  | _ => throw .assertion

variable (table : BlockTable)

def isAllocated : Bool := 0 < table.blocks.blocks.length

def physicalBlockIds : List BlockId := table.blocks.blockIds

def allocate (allocator : CpuGpuBlockAllocator) (blockSize : Nat) (tokenIds : List Nat) :
    Except CacheError (BlockTable × CpuGpuBlockAllocator) := do
  if table.isAllocated || tokenIds.isEmpty then
    throw .assertion
  let (blocks, gpu) ← allocateBlocksForTokenIds allocator.gpu blockSize tokenIds
  return (⟨.ofBlocks blocks, tokenIds.length⟩, { allocator with gpu := gpu })

def numEmptySlots (blockSize : Nat) : Nat :=
  table.blocks.blocks.length * blockSize - table.numFullSlots

def growBlocks (blocks : BlockList) (allocator : NaiveBlockAllocator) :
    Nat → Except CacheError (BlockList × NaiveBlockAllocator)
  | 0 => .ok (blocks, allocator)
  | count + 1 => do
    let (block, allocator) ← allocator.allocateMutableBlock
    growBlocks (blocks.append block) allocator count

def ensureNumEmptySlots (allocator : NaiveBlockAllocator) (blockSize numEmptySlots : Nat) :
    Except CacheError (BlockTable × NaiveBlockAllocator) :=
  if ! table.isAllocated then .error .assertion
  else if numEmptySlots ≤ table.numEmptySlots blockSize then .ok (table, allocator)
  else do
    let slotsToAllocate := numEmptySlots - table.numEmptySlots blockSize
    let (blocks, allocator) ←
      growBlocks table.blocks allocator (cdiv slotsToAllocate blockSize)
    return ({ table with blocks := blocks }, allocator)

def firstChunkSize (blockSize : Nat) : Nat :=
  blockSize - table.numFullSlots % blockSize

def chunkTokenBlocksForAppend (blockSize : Nat) (tokenIds : List Nat) : List (List Nat) :=
  if tokenIds.isEmpty then []
  else tokenIds.take (table.firstChunkSize blockSize) ::
    chunkList (tokenIds.drop (table.firstChunkSize blockSize)) blockSize

def appendBlocks (blocks : BlockList) (allocator : NaiveBlockAllocator) (index : Nat) :
    List (List Nat) → Except CacheError (BlockList × NaiveBlockAllocator)
  | [] => .ok (blocks, allocator)
  | tokenBlock :: rest => do
    let (blocks, allocator) ← blocks.appendTokenIds allocator index tokenBlock
    appendBlocks blocks allocator (index + 1) rest

def appendTokenIds (allocator : CpuGpuBlockAllocator) (blockSize : Nat) (tokenIds : List Nat)
    (numLookaheadSlots : Nat) : Except CacheError (BlockTable × CpuGpuBlockAllocator) := do
  let (grown, gpu) ← table.ensureNumEmptySlots allocator.gpu blockSize
    (tokenIds.length + numLookaheadSlots)
  let firstBlockIdx := grown.numFullSlots / blockSize
  let tokenBlocks := grown.chunkTokenBlocksForAppend blockSize tokenIds
  let (blocks, gpu) ← appendBlocks grown.blocks gpu firstBlockIdx tokenBlocks
  return (⟨blocks, grown.numFullSlots + tokenIds.length⟩, { allocator with gpu := gpu })

def fork (allocator : CpuGpuBlockAllocator) :
    Except CacheError (BlockTable × CpuGpuBlockAllocator) := do
  if ! table.isAllocated then
    throw .assertion
  let (forked, allocator) ← allocator.fork table.blocks.blocks
  return (⟨.ofBlocks forked, (forked.map fun block => block.tokenIds.length).sum⟩, allocator)

def freeBlocks (allocator : CpuGpuBlockAllocator) :
    List Block → Except CacheError CpuGpuBlockAllocator
  | [] => .ok allocator
  | block :: rest => do
    let allocator ← allocator.free block
    freeBlocks allocator rest

def free (allocator : CpuGpuBlockAllocator) : Except CacheError CpuGpuBlockAllocator :=
  freeBlocks allocator table.blocks.blocks

def getUnseenTokenIds (sequenceTokenIds : List Nat) : List Nat :=
  sequenceTokenIds.drop table.numFullSlots

def getNumBlocksTouchedByAppendSlots (blockSize : Nat) (tokenIds : List Nat)
    (numLookaheadSlots : Nat) : Int :=
  let numTokenIds : Int := tokenIds.length + numLookaheadSlots
  1 + -((table.firstChunkSize blockSize - numTokenIds) / blockSize)

end BlockTable

end Tables

end ScalarLM.Cache
