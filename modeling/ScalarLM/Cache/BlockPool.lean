import ScalarLM.Cache.BlockTable
import ScalarLM.Lib.Gather

/-! The objects for blocks, which an allocator makes beforehand and uses again. What they hold is
in the tables; here it is told which objects a table has, and which ones are free. -/

namespace ScalarLM.Cache

section Pools

structure BlockPool where
  poolSize : Nat
  freeIds : List Nat

namespace BlockPool

def init (poolSize : Nat) : BlockPool := ⟨poolSize, List.range poolSize⟩

variable (pool : BlockPool)

def increasePool : BlockPool where
  poolSize := pool.poolSize * 2
  freeIds := pool.freeIds ++ List.range' pool.poolSize pool.poolSize

def initBlock : Except CacheError (Nat × BlockPool) :=
  let pool := if pool.freeIds.isEmpty then pool.increasePool else pool
  match pool.freeIds with
  | [] => .error .assertion
  | poolId :: rest =>
    if poolId < pool.poolSize then .ok (poolId, { pool with freeIds := rest })
    else .error .index

def freeBlock (poolId : Nat) : BlockPool := { pool with freeIds := poolId :: pool.freeIds }

def initBlocks (pool : BlockPool) : Nat → Except CacheError (List Nat × BlockPool)
  | 0 => .ok ([], pool)
  | count + 1 => do
    let (poolId, pool) ← pool.initBlock
    let (others, pool) ← initBlocks pool count
    return (poolId :: others, pool)

/-- Each object is given back before the next one is taken. -/
def borrowBlocks (pool : BlockPool) : Nat → Except CacheError BlockPool
  | 0 => .ok pool
  | count + 1 => do
    let (poolId, pool) ← pool.initBlock
    borrowBlocks (pool.freeBlock poolId) count

end BlockPool

end Pools

section Objects

/-- An object, by the allocator that it belongs to and its number in the pool of that. -/
structure BlockObject where
  owner : Device
  poolId : Nat
  deriving DecidableEq, Repr

structure BlockObjects where
  cpu : BlockPool
  gpu : BlockPool
  tables : Dict Nat (List BlockObject)

namespace BlockObjects

def create (numGpuBlocks numCpuBlocks : Nat) : BlockObjects where
  cpu := .init (numCpuBlocks * 4)
  gpu := .init (numGpuBlocks * 4)
  tables := .empty

variable (objects : BlockObjects)

def on : Device → BlockPool
  | .cpu => objects.cpu
  | .gpu => objects.gpu

def update : Device → BlockPool → BlockObjects
  | .cpu, changed => { objects with cpu := changed }
  | .gpu, changed => { objects with gpu := changed }

def ofTable (seqId : Nat) : List BlockObject := (objects.tables.get? seqId).getD []

def setTable (seqId : Nat) (table : List BlockObject) : BlockObjects :=
  { objects with tables := objects.tables.set seqId table }

def initOn (device : Device) (count : Nat) : Except CacheError (List BlockObject × BlockObjects) :=
    do
  let (ids, pool) ← (objects.on device).initBlocks count
  return (ids.map (BlockObject.mk device), objects.update device pool)

def start (device : Device) (seqId count : Nat) : Except CacheError BlockObjects := do
  let (made, objects) ← objects.initOn device count
  return objects.setTable seqId made

/-- New blocks of a table are the GPU's. The objects that are appended to look for their blocks
in the counts of their own allocators, and only the GPU's are there. -/
def append (seqId grown first touched : Nat) : Except CacheError BlockObjects := do
  let (made, objects) ← objects.initOn .gpu grown
  let table := objects.ofTable seqId ++ made
  if ((table.drop first).take touched).all fun object => object.owner = .gpu then
    return objects.setTable seqId table
  else throw .assertion

/-- The object of a block goes to the pool of the device that the block is on. -/
def freeBlocks (allocator : CpuGpuBlockAllocator) (objects : BlockObjects) :
    List (BlockObject × Block) → Except CacheError BlockObjects
  | [] => .ok objects
  | (object, block) :: rest => do
    let device ← allocator.deviceOf block.blockId
    freeBlocks allocator
      (objects.update device ((objects.on device).freeBlock object.poolId)) rest

def free (allocator : CpuGpuBlockAllocator) (seqId : Nat) (blocks : List Block) :
    Except CacheError BlockObjects := do
  let objects ← objects.freeBlocks allocator ((objects.ofTable seqId).zip blocks)
  return { objects with tables := objects.tables.erase seqId }

/-- The forked blocks are made by the allocator that has the last of the given ones. -/
def fork (allocator : CpuGpuBlockAllocator) (seqId : Nat) (blocks : List Block) :
    Except CacheError BlockObjects :=
  match blocks.getLast? with
  | none => .error .missing
  | some last => do
    let device ← allocator.deviceOf last.blockId
    objects.start device seqId blocks.length

/-- Blocks that are swapped in keep their objects, and an object of the device is only used to
find a place for each of them. -/
def swapIn (device : Device) (count : Nat) : Except CacheError BlockObjects := do
  let pool ← (objects.on device).borrowBlocks count
  return objects.update device pool

end BlockObjects

end Objects

section Lending

variable {pool : BlockPool} {lent : Multiset Nat}

/-- An object is either free or lent, and is so once. -/
structure BlockPool.Lends (pool : BlockPool) (lent : Multiset Nat) : Prop where
  once : (lent + ↑pool.freeIds).Nodup
  within : ∀ poolId ∈ lent + ↑pool.freeIds, poolId < pool.poolSize

namespace BlockPool

theorem lends_init (poolSize : Nat) : (init poolSize).Lends 0 where
  once := by
    rw [Multiset.zero_add]
    exact List.nodup_range
  within poolId member := by
    rw [Multiset.zero_add] at member
    exact List.mem_range.mp member

theorem Lends.increasePool (lends : pool.Lends lent) : pool.increasePool.Lends lent := by
  have split : lent + ↑pool.increasePool.freeIds =
      (lent + ↑pool.freeIds) + ↑(List.range' pool.poolSize pool.poolSize) := by
    rw [BlockPool.increasePool, ← Multiset.coe_add, ← Multiset.add_assoc]
  refine ⟨?_, fun poolId member => ?_⟩
  · rw [split, Multiset.nodup_add]
    refine ⟨lends.once, List.nodup_range', ?_⟩
    rw [Multiset.disjoint_left]
    intro poolId old new
    exact absurd (lends.within poolId old) (Nat.not_lt.mpr (List.mem_range'_1.mp new).1)
  · rw [split, Multiset.mem_add] at member
    change poolId < pool.poolSize * 2
    rcases member with old | new
    · have small := lends.within poolId old
      omega
    · have bounds := List.mem_range'_1.mp new
      omega

theorem Lends.take (lends : pool.Lends lent) {poolId : Nat} {rest : List Nat}
    (first : pool.freeIds = poolId :: rest) :
    ({ pool with freeIds := rest } : BlockPool).Lends (poolId ::ₘ lent) := by
  have same : poolId ::ₘ lent + ↑rest = lent + ↑pool.freeIds := by
    rw [first, ← Multiset.cons_coe, Multiset.add_cons, Multiset.cons_add]
  exact ⟨same ▸ lends.once, fun other member => lends.within other (same ▸ member)⟩

theorem Lends.freeBlock {poolId : Nat} (lends : pool.Lends (poolId ::ₘ lent)) :
    (pool.freeBlock poolId).Lends lent := by
  have same : lent + ↑(pool.freeBlock poolId).freeIds = poolId ::ₘ lent + ↑pool.freeIds := by
    rw [BlockPool.freeBlock, ← Multiset.cons_coe, Multiset.add_cons, Multiset.cons_add]
  exact ⟨same ▸ lends.once, fun other member => lends.within other (same ▸ member)⟩

theorem initBlock_eq (lends : pool.Lends lent) (room : 0 < pool.poolSize) :
    ∃ poolId after, pool.initBlock = .ok (poolId, after) ∧ after.Lends (poolId ::ₘ lent) ∧
      pool.poolSize ≤ after.poolSize := by
  have general : ∀ (start : BlockPool) (poolId : Nat) (rest : List Nat), start.Lends lent →
      start.freeIds = poolId :: rest → poolId < start.poolSize := by
    intro start poolId rest lends first
    refine lends.within poolId (Multiset.mem_add.mpr (.inr ?_))
    rw [first]
    exact List.mem_cons_self
  cases free : pool.freeIds with
  | nil =>
      have first : pool.increasePool.freeIds =
          pool.poolSize :: List.range' (pool.poolSize + 1) (pool.poolSize - 1) := by
        rw [increasePool, free, List.nil_append]
        obtain ⟨size, equal⟩ := Nat.exists_eq_succ_of_ne_zero (Nat.ne_of_gt room)
        rw [equal]
        rfl
      have inside := general _ _ _ lends.increasePool first
      refine ⟨_, _, ?_, lends.increasePool.take first, ?_⟩
      · simp only [initBlock, free, List.isEmpty_nil, if_true, first, inside]
      · exact Nat.le_mul_of_pos_right _ (by decide)
  | cons poolId rest =>
      refine ⟨poolId, _, ?_, lends.take free, Nat.le_refl _⟩
      have inside := general _ _ _ lends free
      simp only [initBlock, free, List.isEmpty_cons, Bool.false_eq_true, if_false, inside, if_true]

theorem initBlocks_eq (count : Nat) (lends : pool.Lends lent) (room : 0 < pool.poolSize) :
    ∃ ids after, pool.initBlocks count = .ok (ids, after) ∧ ids.length = count ∧
      after.Lends (lent + ↑ids) ∧ pool.poolSize ≤ after.poolSize := by
  induction count generalizing pool lent with
  | zero =>
      refine ⟨[], pool, rfl, rfl, ?_, Nat.le_refl _⟩
      rwa [Multiset.coe_nil, Multiset.add_zero]
  | succ count ih =>
      obtain ⟨poolId, middle, run, lends', grown⟩ := initBlock_eq lends room
      obtain ⟨ids, after, run', length, lends'', grown'⟩ :=
        ih lends' (Nat.lt_of_lt_of_le room grown)
      refine ⟨poolId :: ids, after, ?_, congrArg Nat.succ length, ?_, grown.trans grown'⟩
      · rw [initBlocks, run]
        simp only [bind, Except.bind, run', pure, Except.pure]
      · rwa [← Multiset.cons_coe, Multiset.add_cons, ← Multiset.cons_add]

theorem borrowBlocks_eq (count : Nat) (lends : pool.Lends lent) (room : 0 < pool.poolSize) :
    ∃ after, pool.borrowBlocks count = .ok after ∧ after.Lends lent ∧
      pool.poolSize ≤ after.poolSize := by
  induction count generalizing pool with
  | zero => exact ⟨pool, rfl, lends, Nat.le_refl _⟩
  | succ count ih =>
      obtain ⟨poolId, middle, run, lends', grown⟩ := initBlock_eq lends room
      obtain ⟨after, run', lends'', grown'⟩ :=
        ih lends'.freeBlock (Nat.lt_of_lt_of_le room grown)
      refine ⟨after, ?_, lends'', grown.trans grown'⟩
      rw [borrowBlocks, run]
      exact run'

end BlockPool

end Lending

section Owning

def poolIds (objects : List BlockObject) : List Nat := objects.map BlockObject.poolId

theorem poolIds_mk (device : Device) (ids : List Nat) :
    poolIds (ids.map (BlockObject.mk device)) = ids := by
  rw [poolIds, List.map_map]
  exact List.map_id ids

/-- Each block in a table has an object of the GPU's allocator for itself, and there are objects
for all blocks of a device. -/
structure BlockObjects.Owned (objects : BlockObjects) (allocator : CpuGpuBlockAllocator)
    (tables : Dict Nat BlockTable) : Prop where
  gpu : objects.gpu.Lends (objects.tables.gather poolIds)
  cpu : objects.cpu.Lends 0
  own : ∀ key table, tables.get? key = some table →
    ∃ ids : List Nat, objects.tables.get? key = some (ids.map (BlockObject.mk .gpu)) ∧
      ids.length = table.blocks.blocks.length
  absent : ∀ key, tables.get? key = none → objects.tables.get? key = none
  size : ∀ device, (allocator.on device).allBlockIndices.length ≤ (objects.on device).poolSize

namespace BlockObjects.Owned

variable {objects : BlockObjects} {allocator allocator' : CpuGpuBlockAllocator}
  {tables : Dict Nat BlockTable} {key : Nat} {table : BlockTable}

theorem create (numGpuBlocks numCpuBlocks blockSize : Nat) :
    (BlockObjects.create numGpuBlocks numCpuBlocks).Owned
      (.create numGpuBlocks numCpuBlocks blockSize) .empty where
  gpu := BlockPool.lends_init _
  cpu := BlockPool.lends_init _
  own key table found := by cases found
  absent key _ := rfl
  size device := by
    cases device
    · refine (Nat.le_of_eq List.length_range').trans ?_
      exact Nat.le_mul_of_pos_right _ (by decide)
    · refine (Nat.le_of_eq List.length_range).trans ?_
      exact Nat.le_mul_of_pos_right _ (by decide)

theorem positive (owned : objects.Owned allocator tables) (device : Device) {id : BlockId}
    (member : id ∈ (allocator.on device).allBlockIndices) : 0 < (objects.on device).poolSize :=
  Nat.lt_of_lt_of_le (List.length_pos_of_mem member) (owned.size device)

theorem congr (owned : objects.Owned allocator tables)
    (all : ∀ device, (allocator'.on device).allBlockIndices =
      (allocator.on device).allBlockIndices) : objects.Owned allocator' tables where
  gpu := owned.gpu
  cpu := owned.cpu
  own := owned.own
  absent := owned.absent
  size device := (all device).symm ▸ owned.size device

theorem apart (owned : objects.Owned allocator tables) (found : tables.get? key = some table) :
    ∃ held, objects.tables.get? key = some held ∧
      held.length = table.blocks.blocks.length ∧ held.Nodup ∧
      ∀ object ∈ held, object.owner = .gpu ∧ object.poolId ∉ objects.gpu.freeIds ∧
        ∀ other, other ≠ key → object ∉ objects.ofTable other := by
  obtain ⟨ids, listed, count⟩ := owned.own key table found
  have whole : objects.tables.gather poolIds = (objects.tables.erase key).gather poolIds + ↑ids :=
    (Dict.gather_found listed).trans (by rw [poolIds_mk])
  have once := owned.gpu.once
  rw [whole] at once
  obtain ⟨lent, _, free⟩ := Multiset.nodup_add.mp once
  obtain ⟨_, own, others⟩ := Multiset.nodup_add.mp lent
  have injective : Function.Injective (BlockObject.mk .gpu) := fun _ _ same =>
    (BlockObject.mk.inj same).2
  refine ⟨_, listed, by rw [List.length_map, count],
    (Multiset.coe_nodup.mp own).map injective, fun object member => ?_⟩
  obtain ⟨poolId, inside, rfl⟩ := List.mem_map.mp member
  refine ⟨rfl, ?_, fun other different there => ?_⟩
  · exact Multiset.disjoint_left.mp free (Multiset.mem_add.mpr (.inr inside))
  · refine Multiset.disjoint_left.mp others (Dict.mem_gather.mpr ?_) inside
    rw [ofTable] at there
    cases place : objects.tables.get? other with
    | none =>
        rw [place] at there
        exact absurd there List.not_mem_nil
    | some its =>
        rw [place] at there
        refine ⟨other, its, ?_, List.mem_map_of_mem there⟩
        rw [Dict.get?_erase, if_neg different, place]

theorem set (owned : objects.Owned allocator tables) (ids : List Nat) {pool : BlockPool}
    (lends : pool.Lends ((objects.tables.erase key).gather poolIds + ↑ids))
    (grown : objects.gpu.poolSize ≤ pool.poolSize)
    (length : ids.length = table.blocks.blocks.length)
    (all : ∀ device, (allocator'.on device).allBlockIndices =
      (allocator.on device).allBlockIndices) :
    ((objects.update .gpu pool).setTable key (ids.map (BlockObject.mk .gpu))).Owned allocator'
      (tables.set key table) where
  gpu := by
    have whole : (objects.tables.set key (ids.map (BlockObject.mk .gpu))).gather poolIds =
        (objects.tables.erase key).gather poolIds + ↑ids := by
      rw [Dict.gather_set, poolIds_mk]
    exact whole ▸ lends
  cpu := owned.cpu
  own other held found := by
    change ∃ made : List Nat, (objects.tables.set key _).get? other = _ ∧ _
    rw [Dict.get?_set] at found ⊢
    split at found
    · rename_i same
      exact ⟨ids, if_pos same, by rw [← Option.some.inj found, length]⟩
    · rename_i different
      rw [if_neg different]
      exact owned.own other held found
  absent other none := by
    change (objects.tables.set key _).get? other = _
    rw [Dict.get?_set] at none ⊢
    split at none
    · cases none
    · rename_i different
      rw [if_neg different]
      exact owned.absent other none
  size device := by
    rw [all]
    cases device
    · exact owned.size .cpu
    · exact (owned.size .gpu).trans grown

theorem start (owned : objects.Owned allocator tables) (table : BlockTable)
    (absent : tables.get? key = none) (room : 0 < objects.gpu.poolSize)
    (all : ∀ device, (allocator'.on device).allBlockIndices =
      (allocator.on device).allBlockIndices) :
    ∃ after, objects.start .gpu key table.blocks.blocks.length = .ok after ∧
      after.Owned allocator' (tables.set key table) := by
  obtain ⟨ids, pool, run, length, lends, grown⟩ :=
    BlockPool.initBlocks_eq table.blocks.blocks.length owned.gpu room
  refine ⟨_, ?_, owned.set ids ?_ grown length all⟩
  · rw [BlockObjects.start, initOn, on, run]
    rfl
  · rwa [Dict.gather_absent (owned.absent key absent)]

theorem all_gpu (ids : List Nat) (first touched : Nat) :
    ((((ids.map (BlockObject.mk .gpu)).drop first).take touched).all
      fun object => object.owner = .gpu) = true := by
  rw [List.all_eq_true]
  intro object member
  obtain ⟨poolId, _, rfl⟩ := List.mem_map.mp (List.mem_of_mem_drop (List.mem_of_mem_take member))
  exact decide_eq_true rfl

theorem append (owned : objects.Owned allocator tables) (table : BlockTable) {old : BlockTable}
    (found : tables.get? key = some old)
    (longer : old.blocks.blocks.length ≤ table.blocks.blocks.length)
    (room : 0 < objects.gpu.poolSize)
    (all : ∀ device, (allocator'.on device).allBlockIndices =
      (allocator.on device).allBlockIndices) (first touched : Nat) :
    ∃ after, objects.append key (table.blocks.blocks.length - old.blocks.blocks.length) first
        touched = .ok after ∧ after.Owned allocator' (tables.set key table) := by
  obtain ⟨ids, held, count⟩ := owned.own key old found
  obtain ⟨more, pool, run, length, lends, grown⟩ :=
    BlockPool.initBlocks_eq (table.blocks.blocks.length - old.blocks.blocks.length) owned.gpu room
  have joined : ids.map (BlockObject.mk .gpu) ++ more.map (BlockObject.mk .gpu) =
      (ids ++ more).map (BlockObject.mk .gpu) := List.map_append.symm
  refine ⟨_, ?_, owned.set (ids ++ more) ?_ grown ?_ all⟩
  · rw [BlockObjects.append, initOn, on, run]
    have table : (objects.update .gpu pool).ofTable key = ids.map (BlockObject.mk .gpu) := by
      rw [ofTable, update, held, Option.getD_some]
    simp only [bind, Except.bind, pure, Except.pure, table, joined, all_gpu, if_true]
  · rw [← Multiset.coe_add, ← Multiset.add_assoc]
    have before : objects.tables.gather poolIds =
        (objects.tables.erase key).gather poolIds + ↑(poolIds (ids.map (BlockObject.mk .gpu))) :=
      Dict.gather_found held
    rw [poolIds_mk] at before
    rwa [← before]
  · rw [List.length_append, count, length]
    omega

theorem freeBlocks_eq (ids : List Nat) (blocks : List Block) {lent : Multiset Nat}
    (length : ids.length = blocks.length)
    (there : ∀ block ∈ blocks, allocator.deviceOf block.blockId = .ok .gpu)
    (lends : objects.gpu.Lends (lent + ↑ids)) :
    ∃ pool, objects.freeBlocks allocator ((ids.map (BlockObject.mk .gpu)).zip blocks) =
        .ok (objects.update .gpu pool) ∧ pool.Lends lent ∧
      pool.poolSize = objects.gpu.poolSize := by
  induction ids generalizing blocks objects with
  | nil =>
      rw [Multiset.coe_nil, Multiset.add_zero] at lends
      exact ⟨objects.gpu, rfl, lends, rfl⟩
  | cons poolId rest ih =>
      cases blocks with
      | nil => cases length
      | cons block others =>
          rw [← Multiset.cons_coe, Multiset.add_cons] at lends
          rw [List.forall_mem_cons] at there
          obtain ⟨pool, run, lends', size⟩ :=
            @ih (objects.update .gpu (objects.gpu.freeBlock poolId)) others
              (Nat.succ.inj length) there.2 lends.freeBlock
          refine ⟨pool, ?_, lends', size⟩
          rw [List.map_cons, List.zip_cons_cons, BlockObjects.freeBlocks, there.1]
          exact run

theorem free (owned : objects.Owned allocator tables) (found : tables.get? key = some table)
    (there : ∀ block ∈ table.blocks.blocks, allocator.deviceOf block.blockId = .ok .gpu)
    (all : ∀ device, (allocator'.on device).allBlockIndices =
      (allocator.on device).allBlockIndices) :
    ∃ after, objects.free allocator key table.blocks.blocks = .ok after ∧
      after.Owned allocator' (tables.erase key) := by
  obtain ⟨ids, held, count⟩ := owned.own key table found
  have before : objects.tables.gather poolIds =
      (objects.tables.erase key).gather poolIds + ↑(poolIds (ids.map (BlockObject.mk .gpu))) :=
    Dict.gather_found held
  rw [poolIds_mk] at before
  obtain ⟨pool, run, lends, size⟩ :=
    freeBlocks_eq ids table.blocks.blocks count there (before ▸ owned.gpu)
  refine ⟨{ objects.update .gpu pool with tables := objects.tables.erase key }, ?_, ?_⟩
  · rw [BlockObjects.free, ofTable, held, Option.getD_some, run]
    rfl
  · refine ⟨lends, owned.cpu, fun other kept found' => ?_, fun other none => ?_, fun device => ?_⟩
    · change ∃ made : List Nat, (objects.tables.erase key).get? other = _ ∧ _
      rw [Dict.get?_erase] at found' ⊢
      split at found'
      · cases found'
      · rename_i different
        rw [if_neg different]
        exact owned.own other kept found'
    · change (objects.tables.erase key).get? other = _
      rw [Dict.get?_erase] at none ⊢
      split at none
      · rename_i same
        exact if_pos same
      · rename_i different
        rw [if_neg different]
        exact owned.absent other none
    · rw [all]
      cases device
      · exact owned.size .cpu
      · exact (owned.size .gpu).trans (Nat.le_of_eq size.symm)

theorem swapIn (owned : objects.Owned allocator tables) (table : BlockTable) {old : BlockTable}
    (found : tables.get? key = some old)
    (length : table.blocks.blocks.length = old.blocks.blocks.length) (device : Device)
    (room : 0 < (objects.on device).poolSize)
    (all : ∀ device, (allocator'.on device).allBlockIndices =
      (allocator.on device).allBlockIndices) (count : Nat) :
    ∃ after, objects.swapIn device count = .ok after ∧
      after.Owned allocator' (tables.set key table) := by
  have own : ∀ other held, (tables.set key table).get? other = some held →
      ∃ ids : List Nat, objects.tables.get? other = some (ids.map (BlockObject.mk .gpu)) ∧
        ids.length = held.blocks.blocks.length := by
    intro other held found'
    rw [Dict.get?_set] at found'
    split at found'
    · rename_i same
      rw [same, ← Option.some.inj found', length]
      exact owned.own key old found
    · exact owned.own other held found'
  have absent : ∀ other, (tables.set key table).get? other = none →
      objects.tables.get? other = none := by
    intro other none
    rw [Dict.get?_set] at none
    split at none
    · cases none
    · exact owned.absent other none
  cases device with
  | cpu =>
      obtain ⟨pool, run, lends, grown⟩ := BlockPool.borrowBlocks_eq count owned.cpu room
      refine ⟨objects.update .cpu pool, ?_, owned.gpu, lends, own, absent, fun device => ?_⟩
      · rw [BlockObjects.swapIn, on, run]
        rfl
      · rw [all]
        cases device
        · exact (owned.size .cpu).trans grown
        · exact owned.size .gpu
  | gpu =>
      obtain ⟨pool, run, lends, grown⟩ := BlockPool.borrowBlocks_eq count owned.gpu room
      refine ⟨objects.update .gpu pool, ?_, lends, owned.cpu, own, absent, fun device => ?_⟩
      · rw [BlockObjects.swapIn, on, run]
        rfl
      · rw [all]
        cases device
        · exact owned.size .cpu
        · exact (owned.size .gpu).trans grown

end BlockObjects.Owned

end Owning

end ScalarLM.Cache
