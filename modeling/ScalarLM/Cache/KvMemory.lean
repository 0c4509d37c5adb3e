import ScalarLM.Cache.ManagerSteps

/-! The caches of keys and values, and what a worker does to them. -/

namespace ScalarLM.Cache

open Paging

section Caches

variable {ν : Type}

/-- What was computed for a token stands in a block at an offset. -/
structure CacheEngine (ν : Type) where
  gpuCache : Nat → Nat → ν
  cpuCache : Nat → Nat → ν

def swapBlocks (source target : Nat → Nat → ν) (blockMapping : List (Nat × Nat)) :
    Nat → Nat → ν :=
  blockMapping.foldl (fun target move => Function.update target move.2 (source move.1)) target

def copyBlocks (cache : Nat → Nat → ν) (blockMapping : List (Nat × Nat)) : Nat → Nat → ν :=
  copyAll cache blockMapping

namespace CacheEngine

variable (engine : CacheEngine ν)

def swapIn (moves : List (Nat × Nat)) : CacheEngine ν :=
  { engine with gpuCache := swapBlocks engine.cpuCache engine.gpuCache moves }

def swapOut (moves : List (Nat × Nat)) : CacheEngine ν :=
  { engine with cpuCache := swapBlocks engine.gpuCache engine.cpuCache moves }

def copy (moves : List (Nat × Nat)) : CacheEngine ν :=
  { engine with gpuCache := copyBlocks engine.gpuCache moves }

/-- All transfers of a step, those from the CPU first and the copies last. -/
def executeWorker (blocksToSwapIn blocksToSwapOut blocksToCopy : List (Nat × Nat)) :
    CacheEngine ν :=
  ((engine.swapIn blocksToSwapIn).swapOut blocksToSwapOut).copy blocksToCopy

/-- Both caches together, by the numbers that the manager gives the blocks. -/
def memory (numGpuBlocks : Nat) (id : BlockId) : Nat → ν :=
  if id < numGpuBlocks then engine.gpuCache id else engine.cpuCache (id - numGpuBlocks)

end CacheEngine

def computeSlotMapping (blockTable : List Nat) (rangeStart rangeEnd blockSize : Nat) :
    Option (List Nat) :=
  (List.range' rangeStart (rangeEnd - rangeStart)).mapM fun position =>
    blockTable[position / blockSize]?.map fun blockNumber =>
      blockNumber * blockSize + position % blockSize

def reshapeAndCache (cache : Nat → Nat → ν) (blockSize : Nat) (slotMapping : List Nat)
    (values : List ν) : Nat → Nat → ν :=
  (slotMapping.zip values).foldl
    (fun cache entry => write cache (entry.1 / blockSize) (entry.1 % blockSize) entry.2) cache

end Caches

section Together

variable {ν : Type} (engine : CacheEngine ν) (numGpuBlocks : Nat)

theorem memory_swapIn (moves : List (BlockId × BlockId))
    (sourced : ∀ move ∈ moves, numGpuBlocks ≤ move.1)
    (targeted : ∀ move ∈ moves, move.2 < numGpuBlocks) :
    (engine.swapIn (moves.map fun move => (move.1 - numGpuBlocks, move.2))).memory numGpuBlocks =
      copyAll (engine.memory numGpuBlocks) moves := by
  induction moves generalizing engine with
  | nil => rfl
  | cons move rest ih =>
      have low := targeted move List.mem_cons_self
      have high := sourced move List.mem_cons_self
      have later := ih ⟨Function.update engine.gpuCache move.2
        (engine.cpuCache (move.1 - numGpuBlocks)), engine.cpuCache⟩
        (fun other member => sourced other (List.mem_cons_of_mem _ member))
        fun other member => targeted other (List.mem_cons_of_mem _ member)
      refine later.trans ?_
      rw [copyAll, copyAll, List.foldl_cons]
      congr 1
      funext id
      by_cases here : id = move.2
      · rw [here]
        simp [CacheEngine.memory, Paging.copy, low, Nat.not_lt.mpr high]
      · simp [CacheEngine.memory, Paging.copy, here]

theorem memory_swapOut (moves : List (BlockId × BlockId))
    (sourced : ∀ move ∈ moves, move.1 < numGpuBlocks)
    (targeted : ∀ move ∈ moves, numGpuBlocks ≤ move.2) :
    (engine.swapOut (moves.map fun move => (move.1, move.2 - numGpuBlocks))).memory numGpuBlocks =
      copyAll (engine.memory numGpuBlocks) moves := by
  induction moves generalizing engine with
  | nil => rfl
  | cons move rest ih =>
      have high := targeted move List.mem_cons_self
      have low := sourced move List.mem_cons_self
      have later := ih ⟨engine.gpuCache, Function.update engine.cpuCache (move.2 - numGpuBlocks)
        (engine.gpuCache move.1)⟩
        (fun other member => sourced other (List.mem_cons_of_mem _ member))
        fun other member => targeted other (List.mem_cons_of_mem _ member)
      refine later.trans ?_
      rw [copyAll, copyAll, List.foldl_cons]
      congr 1
      funext id
      by_cases here : id = move.2
      · rw [here]
        simp [CacheEngine.memory, Paging.copy, low, Nat.not_lt.mpr high]
      · by_cases gpu : id < numGpuBlocks
        · simp [CacheEngine.memory, Paging.copy, here, gpu]
        · have different : ∀ a b c : Nat, c ≤ a → c ≤ b → a ≠ b → a - c ≠ b - c := by omega
          have apart := different id move.2 numGpuBlocks (Nat.le_of_not_lt gpu) high here
          simp [CacheEngine.memory, Paging.copy, here, gpu, apart]

theorem memory_copy (moves : List (BlockId × BlockId))
    (sourced : ∀ move ∈ moves, move.1 < numGpuBlocks)
    (targeted : ∀ move ∈ moves, move.2 < numGpuBlocks) :
    (engine.copy moves).memory numGpuBlocks = copyAll (engine.memory numGpuBlocks) moves := by
  induction moves generalizing engine with
  | nil => rfl
  | cons move rest ih =>
      have target := targeted move List.mem_cons_self
      have source := sourced move List.mem_cons_self
      have later := ih ⟨Paging.copy engine.gpuCache move, engine.cpuCache⟩
        (fun other member => sourced other (List.mem_cons_of_mem _ member))
        fun other member => targeted other (List.mem_cons_of_mem _ member)
      refine later.trans ?_
      rw [copyAll, copyAll, List.foldl_cons]
      congr 1
      funext id
      by_cases here : id = move.2
      · rw [here]
        simp [CacheEngine.memory, Paging.copy, target, source]
      · simp [CacheEngine.memory, Paging.copy, here]

theorem memory_write (block offset : Nat) (value : ν) (low : block < numGpuBlocks) :
    ({ engine with gpuCache := write engine.gpuCache block offset value } :
      CacheEngine ν).memory numGpuBlocks =
        write (engine.memory numGpuBlocks) block offset value := by
  funext id
  by_cases here : id = block
  · rw [here]
    simp [CacheEngine.memory, write, low]
  · simp [CacheEngine.memory, write, here]

end Together

section Slots

variable {ν : Type} {numGpuBlocks blockSize : Nat} {pages : List BlockId}

def CacheEngine.reshape (engine : CacheEngine ν) (blockSize : Nat) (slotMapping : List Nat)
    (values : List ν) : CacheEngine ν :=
  { engine with gpuCache := reshapeAndCache engine.gpuCache blockSize slotMapping values }

theorem computeSlotMapping_succ {start count : Nat} {block : Nat}
    (here : pages[start / blockSize]? = some block) :
    computeSlotMapping pages start (start + (count + 1)) blockSize =
      (computeSlotMapping pages (start + 1) (start + 1 + count) blockSize).map
        fun slots => (block * blockSize + start % blockSize) :: slots := by
  rw [computeSlotMapping, computeSlotMapping, Nat.add_sub_cancel_left, Nat.add_sub_cancel_left,
    List.range'_succ, List.mapM_cons, here, Option.map_some]
  generalize (List.mapM _ _ : Option (List Nat)) = later
  cases later <;> rfl

/-- What is computed for the next tokens is stored behind what was stored for the tokens
before, and only the blocks of the new positions change. -/
theorem reshape_reads (positive : 0 < blockSize) (values : List ν) (engine : CacheEngine ν)
    (stored : List ν) (reads : Reads blockSize (engine.memory numGpuBlocks) pages stored)
    (once : pages.Nodup) (low : ∀ page ∈ pages, page < numGpuBlocks)
    (room : stored.length + values.length ≤ pages.length * blockSize) :
    ∃ slots, computeSlotMapping pages stored.length (stored.length + values.length) blockSize =
        some slots ∧
      Reads blockSize ((engine.reshape blockSize slots values).memory numGpuBlocks) pages
        (stored ++ values) ∧
      ∀ page, (∀ position, stored.length ≤ position →
        position < stored.length + values.length → pages[position / blockSize]? ≠ some page) →
          (engine.reshape blockSize slots values).memory numGpuBlocks page =
            engine.memory numGpuBlocks page := by
  induction values generalizing engine stored with
  | nil =>
      refine ⟨[], ?_, by rw [List.append_nil]; exact reads, fun _ _ => rfl⟩
      simp [computeSlotMapping]
  | cons value rest ih =>
      rw [List.length_cons] at room
      have inside : stored.length / blockSize < pages.length := by
        rw [Nat.div_lt_iff_lt_mul positive]
        omega
      have here := List.getElem?_eq_getElem inside
      generalize pages[stored.length / blockSize] = block at here
      have below := low block (List.mem_of_getElem? here)
      have offset := Nat.mod_lt stored.length positive
      have slotBlock : (block * blockSize + stored.length % blockSize) / blockSize = block := by
        rw [Nat.mul_comm, Nat.mul_add_div positive, Nat.div_eq_of_lt offset, Nat.add_zero]
      have slotOffset : (block * blockSize + stored.length % blockSize) % blockSize =
          stored.length % blockSize := by
        rw [Nat.mul_comm, Nat.mul_add_mod, Nat.mod_mod]
      have wrote : (engine.reshape blockSize [block * blockSize + stored.length % blockSize]
          [value]).memory numGpuBlocks =
            write (engine.memory numGpuBlocks) block (stored.length % blockSize) value := by
        rw [← memory_write engine numGpuBlocks block _ value below]
        simp only [CacheEngine.reshape, reshapeAndCache, List.zip_cons_cons, List.zip_nil_right,
          List.foldl_cons, List.foldl_nil, slotBlock, slotOffset]
      have step := reads.write once here value
      rw [← wrote] at step
      obtain ⟨slots, mapped, after, kept⟩ := ih _ (stored ++ [value]) step (by
        rw [List.length_append, List.length_singleton]
        omega)
      rw [List.length_append, List.length_singleton] at mapped kept
      refine ⟨(block * blockSize + stored.length % blockSize) :: slots, ?_, ?_, ?_⟩
      · rw [List.length_cons, computeSlotMapping_succ here, mapped]
        rfl
      · rw [List.append_cons]
        exact after
      · intro page spared
        have apart : page ≠ block := fun same =>
          spared stored.length (Nat.le_refl _) (by rw [List.length_cons]; omega)
            (by rw [here, same])
        refine (kept page fun position after before =>
          spared position (by omega) (by rw [List.length_cons]; omega)).trans ?_
        rw [wrote, write, Function.update_of_ne apart]

end Slots

end ScalarLM.Cache
