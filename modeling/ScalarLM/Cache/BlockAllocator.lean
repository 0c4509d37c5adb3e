import ScalarLM.Lib.Dict
import ScalarLM.Lib.References

/-! The allocator of cache blocks: free blocks, reference counts and copies on write. -/

namespace ScalarLM.Cache

abbrev BlockId := Nat

inductive CacheError where
  | noFreeBlocks
  | assertion
  | missing
  | index
  deriving DecidableEq, Repr

section RefCounters

structure RefCounter where
  refcounts : Dict BlockId Nat

namespace RefCounter

def init (ids : List BlockId) : RefCounter :=
  ⟨Dict.ofAssignments (ids.map fun id => (id, 0))⟩

def incr (counter : RefCounter) (id : BlockId) : Except CacheError (Nat × RefCounter) :=
  match counter.refcounts.get? id with
  | none => .error .assertion
  | some refcount => .ok (refcount + 1, ⟨counter.refcounts.set id (refcount + 1)⟩)

def decr (counter : RefCounter) (id : BlockId) : Except CacheError (Nat × RefCounter) :=
  match counter.refcounts.get? id with
  | none => .error .assertion
  | some 0 => .error .assertion
  | some (refcount + 1) => .ok (refcount, ⟨counter.refcounts.set id refcount⟩)

def get (counter : RefCounter) (id : BlockId) : Except CacheError Nat :=
  match counter.refcounts.get? id with
  | none => .error .assertion
  | some refcount => .ok refcount

end RefCounter

end RefCounters

/-- A block in a table has its place in the cache. -/
structure Block where
  tokenIds : List Nat
  blockId : BlockId
  deriving DecidableEq, Repr

def Block.numEmptySlots (blockSize : Nat) (block : Block) : Nat :=
  blockSize - block.tokenIds.length

def Block.isFull (blockSize : Nat) (block : Block) : Bool :=
  block.numEmptySlots blockSize = 0

structure NaiveBlockAllocator where
  freeBlockIndices : List BlockId
  allBlockIndices : List BlockId
  refcounter : RefCounter
  blockSize : Nat
  copyOnWrites : List (BlockId × BlockId)

namespace NaiveBlockAllocator

def init (blockIds : List BlockId) (blockSize : Nat) : NaiveBlockAllocator where
  freeBlockIndices := blockIds
  allBlockIndices := blockIds
  refcounter := .init blockIds
  blockSize := blockSize
  copyOnWrites := []

variable (allocator : NaiveBlockAllocator)

def allocateBlockId : Except CacheError (BlockId × NaiveBlockAllocator) :=
  match allocator.freeBlockIndices with
  | [] => .error .noFreeBlocks
  | id :: rest => do
    let (_, refcounter) ← allocator.refcounter.incr id
    return (id, { allocator with freeBlockIndices := rest, refcounter := refcounter })

def freeBlockId (id : BlockId) : Except CacheError NaiveBlockAllocator := do
  let (refcount, refcounter) ← allocator.refcounter.decr id
  return { allocator with
    freeBlockIndices :=
      if refcount = 0 then id :: allocator.freeBlockIndices else allocator.freeBlockIndices
    refcounter := refcounter }

def isAppendable (id : BlockId) : Except CacheError Bool := do
  let refcount ← allocator.refcounter.get id
  return refcount ≤ 1

/-- A block that others refer to is given up for a new one, and the copy is noted. -/
def cowBlockIfNotAppendable (id : BlockId) : Except CacheError (BlockId × NaiveBlockAllocator) := do
  if ← allocator.isAppendable id then
    return (id, allocator)
  let allocator ← allocator.freeBlockId id
  let (target, allocator) ← allocator.allocateBlockId
  return (target, { allocator with copyOnWrites := allocator.copyOnWrites ++ [(id, target)] })

def clearCopyOnWrites : List (BlockId × BlockId) × NaiveBlockAllocator :=
  (allocator.copyOnWrites, { allocator with copyOnWrites := [] })

end NaiveBlockAllocator

def Block.init (blockSize : Nat) (tokenIds : List Nat) (id : BlockId) : Except CacheError Block :=
  if tokenIds.length ≤ blockSize then .ok ⟨tokenIds, id⟩ else .error .assertion

def Block.appendTokenIds (block : Block) (allocator : NaiveBlockAllocator) (tokenIds : List Nat) :
    Except CacheError (Block × NaiveBlockAllocator) := do
  if block.numEmptySlots allocator.blockSize < tokenIds.length then
    throw .assertion
  let (id, allocator) ← allocator.cowBlockIfNotAppendable block.blockId
  return (⟨block.tokenIds ++ tokenIds, id⟩, allocator)

namespace NaiveBlockAllocator

variable (allocator : NaiveBlockAllocator)

def allocateMutableBlock : Except CacheError (Block × NaiveBlockAllocator) := do
  let (id, allocator) ← allocator.allocateBlockId
  let block ← Block.init allocator.blockSize [] id
  return (block, allocator)

def allocateImmutableBlock (tokenIds : List Nat) :
    Except CacheError (Block × NaiveBlockAllocator) := do
  let (block, allocator) ← allocator.allocateMutableBlock
  block.appendTokenIds allocator tokenIds

def allocateBlockIds (allocator : NaiveBlockAllocator) :
    Nat → Except CacheError (List BlockId × NaiveBlockAllocator)
  | 0 => .ok ([], allocator)
  | count + 1 => do
    let (id, allocator) ← allocator.allocateBlockId
    let (ids, allocator) ← allocateBlockIds allocator count
    return (id :: ids, allocator)

/-- All ids are taken before the first block is made. -/
def allocateImmutableBlocks (blockTokenIds : List (List Nat)) :
    Except CacheError (List Block × NaiveBlockAllocator) := do
  let (ids, allocator) ← allocator.allocateBlockIds blockTokenIds.length
  let blocks ← (blockTokenIds.zip ids).mapM fun pair =>
    Block.init allocator.blockSize pair.1 pair.2
  return (blocks, allocator)

def fork (allocator : NaiveBlockAllocator) :
    List Block → Except CacheError (List Block × NaiveBlockAllocator)
  | [] => .ok ([], allocator)
  | block :: rest => do
    let (refcount, refcounter) ← allocator.refcounter.incr block.blockId
    if refcount = 1 then
      throw .assertion
    let forked ← Block.init allocator.blockSize block.tokenIds block.blockId
    let (others, allocator) ← fork { allocator with refcounter := refcounter } rest
    return (forked :: others, allocator)

def swapOut (allocator : NaiveBlockAllocator) : List Block → Except CacheError NaiveBlockAllocator
  | [] => .ok allocator
  | block :: rest => do
    let allocator ← allocator.freeBlockId block.blockId
    swapOut allocator rest

def swapInBlock (block : Block) : Except CacheError (Block × NaiveBlockAllocator) :=
  if block.isFull allocator.blockSize then
    allocator.allocateImmutableBlock block.tokenIds
  else do
    let (temporary, allocator) ← allocator.allocateMutableBlock
    temporary.appendTokenIds allocator block.tokenIds

def swapIn (allocator : NaiveBlockAllocator) :
    List Block → Except CacheError (List Block × NaiveBlockAllocator)
  | [] => .ok ([], allocator)
  | block :: rest => do
    let (moved, allocator) ← allocator.swapInBlock block
    let (others, allocator) ← swapIn allocator rest
    return (⟨block.tokenIds, moved.blockId⟩ :: others, allocator)

def getPhysicalBlockId (id : BlockId) : Except CacheError Nat :=
  match (allocator.allBlockIndices.mergeSort (· ≤ ·)).findIdx? (· = id) with
  | none => .error .missing
  | some index => .ok index

/-- Blocks are objects, and each of a list of them counts for itself. -/
def getNumFullBlocksTouched (blocks : List Block) : Nat :=
  (blocks.filter (Block.isFull allocator.blockSize)).length

end NaiveBlockAllocator

section Books

namespace NaiveBlockAllocator

variable {allocator : NaiveBlockAllocator} {held others : Multiset BlockId} {id : BlockId}

/-- The counts of the allocator are those of the references that are held. -/
def Books (allocator : NaiveBlockAllocator) (held : Multiset BlockId) : Prop :=
  References allocator.allBlockIndices allocator.freeBlockIndices
    allocator.refcounter.refcounts.get? held

theorem books_init (ids : List BlockId) (once : ids.Nodup) (blockSize : Nat) :
    (init ids blockSize).Books 0 := by
  refine References.unused once _ fun id => ?_
  have keys : (ids.map fun id => (id, 0)).map Prod.fst = ids := by simp [Function.comp_def]
  by_cases member : id ∈ ids
  · rw [if_pos member]
    refine (Dict.get?_eq_some_iff _ id 0).mpr ((Dict.mem_ofAssignments _ ?_ _ _).mpr ?_)
    · intro key left right first second
      obtain ⟨_, _, zero⟩ := List.mem_map.mp first
      obtain ⟨_, _, same⟩ := List.mem_map.mp second
      exact (congrArg Prod.snd zero).symm.trans (congrArg Prod.snd same)
    · exact List.mem_map.mpr ⟨id, member, rfl⟩
  · rw [if_neg member]
    refine (Dict.get?_eq_none_iff_not_mem_keys _ id).mpr fun listed => member ?_
    have assigned := (Dict.mem_keys_ofAssignments _ id).mp listed
    rwa [keys] at assigned

theorem Books.get? (books : allocator.Books held) (within : id ∈ allocator.allBlockIndices) :
    allocator.refcounter.refcounts.get? id = some (held.count id) :=
  books.noted id within

theorem allocateBlockId_nil (none : allocator.freeBlockIndices = []) :
    allocator.allocateBlockId = .error .noFreeBlocks := by
  simp [allocateBlockId, none]

def taken (allocator : NaiveBlockAllocator) (id : BlockId) : NaiveBlockAllocator :=
  { allocator with
    freeBlockIndices := allocator.freeBlockIndices.tail
    refcounter := ⟨allocator.refcounter.refcounts.set id 1⟩ }

theorem Books.fresh (books : allocator.Books held) {rest : List BlockId}
    (first : allocator.freeBlockIndices = id :: rest) :
    id ∈ allocator.allBlockIndices ∧ id ∉ held :=
  (books.mem_free id).mp (first ▸ List.mem_cons_self)

theorem allocateBlockId_eq (books : allocator.Books held) {rest : List BlockId}
    (first : allocator.freeBlockIndices = id :: rest) :
    allocator.allocateBlockId = .ok (id, allocator.taken id) := by
  have fresh := books.fresh first
  have zero := books.get? fresh.1
  rw [Multiset.count_eq_zero.mpr fresh.2] at zero
  simp [allocateBlockId, first, RefCounter.incr, zero, taken, bind, Except.bind, pure,
    Except.pure]

theorem Books.taken (books : allocator.Books held) {rest : List BlockId}
    (first : allocator.freeBlockIndices = id :: rest) :
    (allocator.taken id).Books (id ::ₘ held) := by
  have counted : References allocator.allBlockIndices (id :: rest)
      allocator.refcounter.refcounts.get? held := first ▸ books
  have step : References allocator.allBlockIndices rest
      (allocator.refcounter.refcounts.set id 1).get? (id ::ₘ held) :=
    counted.take fun other => Dict.get?_set _ id other 1
  simpa [Books, NaiveBlockAllocator.taken, first] using step

def released (allocator : NaiveBlockAllocator) (id : BlockId) (remaining : Nat) :
    NaiveBlockAllocator :=
  { allocator with
    freeBlockIndices :=
      if remaining = 0 then id :: allocator.freeBlockIndices else allocator.freeBlockIndices
    refcounter := ⟨allocator.refcounter.refcounts.set id remaining⟩ }

theorem freeBlockId_eq (books : allocator.Books (id ::ₘ held))
    (within : id ∈ allocator.allBlockIndices) :
    allocator.freeBlockId id = .ok (allocator.released id (held.count id)) := by
  have noted := books.get? within
  rw [Multiset.count_cons_self] at noted
  simp [freeBlockId, RefCounter.decr, noted, released, bind, Except.bind, pure, Except.pure]

theorem Books.released (books : allocator.Books (id ::ₘ held))
    (within : id ∈ allocator.allBlockIndices) :
    (allocator.released id (held.count id)).Books held :=
  References.release books within fun other => Dict.get?_set _ id other _

theorem isAppendable_eq (books : allocator.Books (id ::ₘ others))
    (within : id ∈ allocator.allBlockIndices) :
    allocator.isAppendable id = .ok (decide (id ∉ others)) := by
  have noted := books.get? within
  rw [Multiset.count_cons_self] at noted
  have same : decide (others.count id + 1 ≤ 1) = decide (id ∉ others) :=
    decide_eq_decide.mpr (by rw [← Multiset.count_eq_zero]; omega)
  simp only [isAppendable, RefCounter.get, noted, bind, Except.bind, pure, Except.pure, same]

theorem cow_own (books : allocator.Books (id ::ₘ others))
    (within : id ∈ allocator.allBlockIndices) (own : id ∉ others) :
    allocator.cowBlockIfNotAppendable id = .ok (id, allocator) := by
  simp [cowBlockIfNotAppendable, isAppendable_eq books within, own, bind, Except.bind, pure,
    Except.pure]

def exchanged (allocator : NaiveBlockAllocator) (id target : BlockId) (remaining : Nat) :
    NaiveBlockAllocator :=
  { (allocator.released id remaining).taken target with
    copyOnWrites := allocator.copyOnWrites ++ [(id, target)] }

theorem released_free_of_shared (allocator : NaiveBlockAllocator) (shared : id ∈ others) :
    (allocator.released id (others.count id)).freeBlockIndices = allocator.freeBlockIndices :=
  if_neg (Multiset.count_ne_zero.mpr shared)

theorem cow_shared (books : allocator.Books (id ::ₘ others))
    (within : id ∈ allocator.allBlockIndices) (shared : id ∈ others) {target : BlockId}
    {rest : List BlockId} (first : allocator.freeBlockIndices = target :: rest) :
    allocator.cowBlockIfNotAppendable id =
      .ok (target, allocator.exchanged id target (others.count id)) := by
  have free := (released_free_of_shared _ shared).trans first
  have step := allocateBlockId_eq (books.released within) free
  simp [cowBlockIfNotAppendable, isAppendable_eq books within, shared, bind, Except.bind, pure,
    Except.pure, freeBlockId_eq books within, step, exchanged]
  rfl

theorem cow_shared_full (books : allocator.Books (id ::ₘ others))
    (within : id ∈ allocator.allBlockIndices) (shared : id ∈ others)
    (none : allocator.freeBlockIndices = []) :
    allocator.cowBlockIfNotAppendable id = .error .noFreeBlocks := by
  have step := allocateBlockId_nil ((released_free_of_shared allocator shared).trans none)
  simp [cowBlockIfNotAppendable, isAppendable_eq books within, shared, bind, Except.bind,
    freeBlockId_eq books within, step]

theorem Books.exchanged (books : allocator.Books (id ::ₘ others))
    (within : id ∈ allocator.allBlockIndices) (shared : id ∈ others) {target : BlockId}
    {rest : List BlockId} (first : allocator.freeBlockIndices = target :: rest) :
    (allocator.exchanged id target (others.count id)).Books (target ::ₘ others) :=
  (books.released within).taken ((released_free_of_shared _ shared).trans first)

end NaiveBlockAllocator

end Books

end ScalarLM.Cache
