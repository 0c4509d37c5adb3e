import ScalarLM.Cache.BlockPool
import ScalarLM.Cache.TableMoves
import ScalarLM.Engine.Sequences

/-! The manager of the cache: which sequence has which blocks. -/

namespace ScalarLM.Engine

def SequenceGroup.getSeqs {V : Type} (group : SequenceGroup V) (status : SequenceStatus) :
    List Sequence :=
  group.seqs.filter fun seq => seq.status = status

end ScalarLM.Engine

namespace ScalarLM.Cache

open Engine

inductive AllocStatus where
  | ok
  | later
  | never
  deriving DecidableEq, Repr

/-- There is no prefix caching: both allocators are naive ones. No group has an encoder, so that
there are no tables for cross-attention. -/
structure BlockSpaceManagerV2 where
  blockSize : Nat
  watermarkBlocks : Nat
  blockAllocator : CpuGpuBlockAllocator
  blockTables : Dict Nat BlockTable
  blockObjects : BlockObjects

namespace BlockSpaceManagerV2

def init (blockSize numGpuBlocks numCpuBlocks watermarkBlocks : Nat) : BlockSpaceManagerV2 where
  blockSize := blockSize
  watermarkBlocks := watermarkBlocks
  blockAllocator := .create numGpuBlocks numCpuBlocks blockSize
  blockTables := .empty
  blockObjects := .create numGpuBlocks numCpuBlocks

variable (manager : BlockSpaceManagerV2)

def tableOf (seqId : Nat) : Except CacheError BlockTable :=
  match manager.blockTables.get? seqId with
  | none => .error .missing
  | some table => .ok table

def setTable (seqId : Nat) (table : BlockTable) (allocator : CpuGpuBlockAllocator)
    (objects : BlockObjects) : BlockSpaceManagerV2 :=
  { manager with
    blockAllocator := allocator
    blockTables := manager.blockTables.set seqId table
    blockObjects := objects }

section Allocate

variable {V : Type}

def canAllocate (group : SequenceGroup V) (numLookaheadSlots : Nat) :
    Except CacheError AllocStatus :=
  match group.getSeqs .waiting with
  | [] => .error .missing
  | seq :: _ =>
    let numRequiredBlocks := BlockTable.getNumRequiredBlocks seq.data.getTokenIds
      manager.blockSize numLookaheadSlots
    let gpu := manager.blockAllocator.gpu
    if gpu.allBlockIndices.length < numRequiredBlocks + manager.watermarkBlocks then .ok .never
    else if numRequiredBlocks + manager.watermarkBlocks ≤ gpu.freeBlockIndices.length then .ok .ok
    else .ok .later

def allocateSequence (seq : Sequence) : Except CacheError (BlockTable × CpuGpuBlockAllocator) :=
  if seq.data.getTokenIds = [] then .ok (.empty, manager.blockAllocator)
  else BlockTable.empty.allocate manager.blockAllocator manager.blockSize seq.data.getTokenIds

def forkTable (table : BlockTable) (seqId : Nat) : Except CacheError BlockSpaceManagerV2 := do
  let (forked, allocator) ← table.fork manager.blockAllocator
  let objects ← manager.blockObjects.fork manager.blockAllocator seqId table.blocks.blocks
  return manager.setTable seqId forked allocator objects

/-- All sequences of the group start with the same blocks. -/
def allocate (group : SequenceGroup V) : Except CacheError BlockSpaceManagerV2 :=
  let waitingSeqs := group.getSeqs .waiting
  if waitingSeqs.any fun seq => manager.blockTables.get? seq.seqId |>.isSome then
    .error .assertion
  else match waitingSeqs with
  | [] => .error .missing
  | seq :: rest => do
    let (table, allocator) ← manager.allocateSequence seq
    let objects ← manager.blockObjects.start .gpu seq.seqId table.blocks.blocks.length
    rest.foldlM (fun manager seq => manager.forkTable table seq.seqId)
      (manager.setTable seq.seqId table allocator objects)

end Allocate

section Append

variable {V : Type}

def touched (seq : Sequence) (numLookaheadSlots : Nat) : Except CacheError Int := do
  let table ← manager.tableOf seq.seqId
  return table.getNumBlocksTouchedByAppendSlots manager.blockSize
    (table.getUnseenTokenIds seq.data.getTokenIds) numLookaheadSlots

def canAppendSlots (group : SequenceGroup V) (numLookaheadSlots : Nat) :
    Except CacheError Bool := do
  let counts ← (group.getSeqs .running).mapM fun seq => manager.touched seq numLookaheadSlots
  return counts.sum ≤ manager.blockAllocator.gpu.freeBlockIndices.length

def appendSlots (seq : Sequence) (numLookaheadSlots : Nat) :
    Except CacheError (List (BlockId × BlockId) × BlockSpaceManagerV2) := do
  let table ← manager.tableOf seq.seqId
  let unseen := table.getUnseenTokenIds seq.data.getTokenIds
  let (appended, allocator) ← table.appendTokenIds manager.blockAllocator manager.blockSize unseen
    numLookaheadSlots
  let objects ← manager.blockObjects.append seq.seqId
    (appended.blocks.blocks.length - table.blocks.blocks.length)
    (table.numFullSlots / manager.blockSize)
    (table.chunkTokenBlocksForAppend manager.blockSize unseen).length
  let (newCows, gpu) := allocator.gpu.clearCopyOnWrites
  return (newCows, manager.setTable seq.seqId appended { allocator with gpu := gpu } objects)

end Append

/-- A sequence that is not there was freed before, or was never scheduled. -/
def free (seqId : Nat) : Except CacheError BlockSpaceManagerV2 :=
  match manager.blockTables.get? seqId with
  | none => .ok manager
  | some table => do
    let allocator ← table.free manager.blockAllocator
    let objects ← manager.blockObjects.free manager.blockAllocator seqId table.blocks.blocks
    return { manager with
      blockAllocator := allocator
      blockTables := manager.blockTables.erase seqId
      blockObjects := objects }

def fork (parentId childId : Nat) : Except CacheError BlockSpaceManagerV2 :=
  match manager.blockTables.get? parentId with
  | none => .ok manager
  | some table => manager.forkTable table childId

section Swap

variable {V : Type}

/-- Whether the blocks of a group have room on a device, with those that are touched next.
The watermark counts on the GPU only. -/
def canSwap (group : SequenceGroup V) (device : Device) (status : SequenceStatus)
    (numLookaheadSlots : Nat) : Except CacheError AllocStatus := do
  let seqs := group.getSeqs status
  let counts ← seqs.mapM fun seq => manager.touched seq numLookaheadSlots
  let tables ← seqs.mapM fun seq => manager.tableOf seq.seqId
  let blocks := tables.flatMap fun table => table.blocks.blocks
  let allocator := manager.blockAllocator.on device
  let numBlocksTouched := counts.sum + allocator.getNumFullBlocksTouched blocks
  let watermarkBlocks := if device = .gpu then manager.watermarkBlocks else 0
  if allocator.allBlockIndices.length < numBlocksTouched then return .never
  else if watermarkBlocks ≤ allocator.freeBlockIndices.length - numBlocksTouched then return .ok
  else return .later

def canSwapIn (group : SequenceGroup V) (numLookaheadSlots : Nat) : Except CacheError AllocStatus :=
  manager.canSwap group .gpu .swapped numLookaheadSlots

def canSwapOut (group : SequenceGroup V) : Except CacheError Bool := do
  let status ← manager.canSwap group .cpu .running 0
  return status = .ok

def physicalMove (allocator : CpuGpuBlockAllocator) (source target : Device)
    (entry : BlockId × BlockId) : Except CacheError (Nat × Nat) := do
  let sourceId ← (allocator.on source).getPhysicalBlockId entry.1
  let targetId ← (allocator.on target).getPhysicalBlockId entry.2
  return (sourceId, targetId)

def swapSequence (source target : Device) (seq : Sequence) :
    Except CacheError (List (Nat × Nat) × BlockSpaceManagerV2) := do
  let table ← manager.tableOf seq.seqId
  if table.blocks.blocks.isEmpty then
    return ([], manager)
  let (moved, mapping, allocator) ←
    manager.blockAllocator.swap table.blocks.blocks source target
  let objects ← manager.blockObjects.swapIn target moved.length
  let moves ← mapping.entries.mapM (physicalMove allocator source target)
  return ((Dict.ofAssignments moves).entries,
    manager.setTable seq.seqId { table with blocks := .ofBlocks moved } allocator objects)

def swapSequences (manager : BlockSpaceManagerV2) (source target : Device) :
    List Sequence → Except CacheError (List (Nat × Nat) × BlockSpaceManagerV2)
  | [] => .ok ([], manager)
  | seq :: rest => do
    let (moves, manager) ← manager.swapSequence source target seq
    let (others, manager) ← swapSequences manager source target rest
    return (moves ++ others, manager)

def swapIn (group : SequenceGroup V) :
    Except CacheError (List (Nat × Nat) × BlockSpaceManagerV2) :=
  manager.swapSequences .cpu .gpu (group.getSeqs .swapped)

def swapOut (group : SequenceGroup V) :
    Except CacheError (List (Nat × Nat) × BlockSpaceManagerV2) :=
  manager.swapSequences .gpu .cpu (group.getSeqs .running)

end Swap

end BlockSpaceManagerV2

end ScalarLM.Cache
