import ScalarLM.Cache.PendingMoves
import ScalarLM.Cache.Reached

/-! Runs of the engine over its cache: scheduling steps, the computations of the model, forks
and sequences that finish. -/

namespace ScalarLM.Cache

open Engine Paging BlockSpaceManagerV2

section Runs

variable {ν : Type}

inductive Scheduled (V : Type) (groupOf : Nat → Nat) (direction : Device)
    (manager : BlockSpaceManagerV2) (stored : Nat → List ν) :
    BlockSpaceManagerV2 → Transfers → List Nat → (Nat → List ν) → Prop where
  | begin : Scheduled V groupOf direction manager stored manager .none [] stored
  | op {middle after : BlockSpaceManagerV2} {transfers transfers' : Transfers}
      {touched : List Nat} {kept : Nat → List ν} (op : ScheduleOp V) :
      Scheduled V groupOf direction manager stored middle transfers touched kept →
      op.Allowed groupOf direction middle touched →
      op.perform middle transfers = .ok (transfers', after) →
      Scheduled V groupOf direction manager stored after transfers' (op.touches groupOf ++ touched)
        (op.store kept)

/-- A run, with what was computed for the tokens of each sequence. The worker makes the copies
of a step in any order. Sequences are freed and forked while they are on the GPU. -/
inductive Execution (V : Type) (groupOf : Nat → Nat)
    (blockSize numGpuBlocks numCpuBlocks watermarkBlocks : Nat) :
    BlockSpaceManagerV2 → CacheEngine ν → (Nat → List ν) → Prop where
  | start (engine : CacheEngine ν) :
      Execution V groupOf blockSize numGpuBlocks numCpuBlocks watermarkBlocks
        (.init blockSize numGpuBlocks numCpuBlocks watermarkBlocks) engine fun _ => []
  | step {manager manager' : BlockSpaceManagerV2} {engine : CacheEngine ν}
      {stored stored' : Nat → List ν} {transfers : Transfers} {touched : List Nat}
      (direction : Device) (order : List (Nat × Nat)) :
      Execution V groupOf blockSize numGpuBlocks numCpuBlocks watermarkBlocks manager engine
        stored →
      Scheduled V groupOf direction manager stored manager' transfers touched stored' →
      transfers.blocksToCopy.Perm order →
      Execution V groupOf blockSize numGpuBlocks numCpuBlocks watermarkBlocks manager'
        (engine.executeWorker transfers.blocksToSwapIn transfers.blocksToSwapOut order) stored'
  | compute {manager : BlockSpaceManagerV2} {engine : CacheEngine ν} {stored : Nat → List ν}
      {table : BlockTable} {slots : List Nat} (key : Nat) (values : List ν) :
      Execution V groupOf blockSize numGpuBlocks numCpuBlocks watermarkBlocks manager engine
        stored →
      manager.blockTables.get? key = some table → manager.Located .gpu key →
      (stored key).length + values.length ≤ table.numFullSlots →
      computeSlotMapping table.physicalBlockIds (stored key).length
        ((stored key).length + values.length) manager.blockSize = some slots →
      Execution V groupOf blockSize numGpuBlocks numCpuBlocks watermarkBlocks manager
        (engine.reshape manager.blockSize slots values)
        (Function.update stored key (stored key ++ values))
  | fork {manager manager' : BlockSpaceManagerV2} {engine : CacheEngine ν}
      {stored : Nat → List ν} {table : BlockTable} (parent child : Nat) :
      Execution V groupOf blockSize numGpuBlocks numCpuBlocks watermarkBlocks manager engine
        stored →
      manager.blockTables.get? parent = some table → manager.Located .gpu parent →
      manager.blockTables.get? child = none →
      groupOf child = groupOf parent → (stored parent).length = table.numFullSlots →
      manager.fork parent child = .ok manager' →
      Execution V groupOf blockSize numGpuBlocks numCpuBlocks watermarkBlocks manager' engine
        (Function.update stored child (stored parent))
  | free {manager manager' : BlockSpaceManagerV2} {engine : CacheEngine ν}
      {stored : Nat → List ν} (key : Nat) :
      Execution V groupOf blockSize numGpuBlocks numCpuBlocks watermarkBlocks manager engine
        stored →
      manager.Located .gpu key → manager.free key = .ok manager' →
      Execution V groupOf blockSize numGpuBlocks numCpuBlocks watermarkBlocks manager' engine
        stored

variable {V : Type} {groupOf : Nat → Nat} {direction : Device}
  {first manager after : BlockSpaceManagerV2} {transfers : Transfers} {touched : List Nat}
  {before stored : Nat → List ν}

theorem Transfers.copy_copy (transfers : Transfers) (left right : List (Nat × Nat)) :
    (transfers.copy left).copy right = transfers.copy (left ++ right) := by
  rw [Transfers.copy, Transfers.copy, Transfers.copy, List.append_assoc]

theorem Scheduled.appendAll (seqs : List Sequence)
    (scheduled : Scheduled V groupOf direction first before manager transfers touched stored)
    (accounted : manager.Accounted) (once : (seqs.map Sequence.seqId).Nodup)
    (located : ∀ seq ∈ seqs, manager.Located .gpu seq.seqId) {lookahead : Nat}
    {cows : List (BlockId × BlockId)} (run : manager.appendAll lookahead seqs = .ok (cows, after)) :
    ∃ more, Scheduled V groupOf direction first before after (transfers.copy cows) more stored ∧
      ∀ group ∈ more, group ∈ touched ∨ ∃ seq ∈ seqs, group = groupOf seq.seqId := by
  induction seqs generalizing manager transfers touched cows with
  | nil =>
      obtain ⟨rfl, rfl⟩ := Prod.mk.inj (Except.ok.inj run)
      refine ⟨touched, ?_, fun group member => .inl member⟩
      have same : transfers.copy [] = transfers := by
        rw [Transfers.copy, List.append_nil]
      rw [same]
      exact scheduled
  | cons seq rest ih =>
      rw [List.map_cons, List.nodup_cons] at once
      obtain ⟨⟨told, middle⟩, made, run⟩ := ok_of_bind run
      obtain ⟨⟨others, final⟩, later, run⟩ := ok_of_bind run
      obtain ⟨rfl, rfl⟩ := Prod.mk.inj (Except.ok.inj run)
      have here := located seq List.mem_cons_self
      obtain ⟨table, sets⟩ := accounted.appendSlots_sets here made
      have performed : (ScheduleOp.appendSlots seq lookahead : ScheduleOp V).perform manager
          transfers = .ok (transfers.copy told, middle) := by
        rw [ScheduleOp.perform, made]
        rfl
      have step := Scheduled.op (.appendSlots seq lookahead) scheduled here performed
      obtain ⟨more, whole, among⟩ := ih step sets.accounted once.2
        (by
          intro other member held found id listed
          have apart : other.seqId ≠ seq.seqId := fun same =>
            once.1 (same ▸ List.mem_map_of_mem member)
          rw [sets.tables, get?_set_other _ apart] at found
          rw [sets.all]
          exact located other (List.mem_cons_of_mem _ member) held found id listed)
        later
      rw [Transfers.copy_copy] at whole
      refine ⟨more, whole, fun group member => ?_⟩
      rcases among group member with listed | own
      · rcases List.mem_cons.mp listed with rfl | earlier
        · exact .inr ⟨seq, List.mem_cons_self, rfl⟩
        · exact .inl earlier
      · obtain ⟨other, inside, same⟩ := own
        exact .inr ⟨other, List.mem_cons_of_mem _ inside, same⟩

end Runs

section Worker

variable {ν V : Type} {groupOf : Nat → Nat} {direction : Device}
  {manager manager' : BlockSpaceManagerV2} {transfers : Transfers} {touched : List Nat}
  {stored stored' : Nat → List ν}

theorem Scheduled.pending {memory : BlockId → Nat → ν}
    (scheduled : Scheduled V groupOf direction manager stored manager' transfers touched stored')
    (holds : Stored groupOf manager memory stored) :
    ∃ swaps copies, Pending groupOf direction manager.blockAllocator manager' memory transfers
      swaps copies touched stored' := by
  induction scheduled with
  | begin => exact ⟨[], [], .start holds⟩
  | op op _ allowed run ih =>
      obtain ⟨swaps, copies, pending⟩ := ih
      exact pending.perform op allowed run

theorem Pending.executeWorker {blocks : CpuGpuBlockAllocator} {engine : CacheEngine ν}
    {swaps copies : List (BlockId × BlockId)} (pending : Pending groupOf direction blocks manager
      (engine.memory blocks.gpu.allBlockIndices.length) transfers swaps copies touched stored)
    {order : List (Nat × Nat)} (any : transfers.blocksToCopy.Perm order) :
    (engine.executeWorker transfers.blocksToSwapIn transfers.blocksToSwapOut order).memory
      blocks.gpu.allBlockIndices.length =
        copyAll (engine.memory blocks.gpu.allBlockIndices.length) (swaps ++ copies) := by
  have numbered : Numbered blocks :=
    pending.holds.accounted.numbered.congr fun device => (pending.all device).symm
  have same : copies.Perm order := by
    have copied : transfers.blocksToCopy = copies := by
      rw [pending.told]
      cases direction <;> rfl
    rwa [copied] at any
  have ends : ∀ move ∈ order, move.1 < blocks.gpu.allBlockIndices.length ∧
      move.2 < blocks.gpu.allBlockIndices.length := by
    intro move member
    obtain ⟨source, target⟩ := pending.copied move (same.mem_iff.mpr member)
    exact ⟨numbered.mem_gpu source, numbered.mem_gpu target⟩
  have swapped : ((engine.swapIn transfers.blocksToSwapIn).swapOut
      transfers.blocksToSwapOut).memory blocks.gpu.allBlockIndices.length =
        copyAll (engine.memory blocks.gpu.allBlockIndices.length) swaps := by
    rw [pending.told]
    cases direction
    · exact memory_swapOut engine _ swaps
        (fun move member => numbered.mem_gpu (pending.swapped move member).1)
        fun move member => numbered.mem_cpu (pending.swapped move member).2
    · exact memory_swapIn engine _ swaps
        (fun move member => numbered.mem_cpu (pending.swapped move member).1)
        fun move member => numbered.mem_gpu (pending.swapped move member).2
  rw [CacheEngine.executeWorker, memory_copy _ _ order (fun move member => (ends move member).1)
    (fun move member => (ends move member).2), swapped, copyAll_append]
  exact (copyAll_perm _ same pending.gathered.once pending.gathered.apart).symm

end Worker

section Together

variable {ν V : Type} {groupOf : Nat → Nat}
  {blockSize numGpuBlocks numCpuBlocks watermarkBlocks : Nat} {manager : BlockSpaceManagerV2}
  {engine : CacheEngine ν} {stored : Nat → List ν}

theorem Execution.holds (positive : 0 < blockSize)
    (execution : Execution V groupOf blockSize numGpuBlocks numCpuBlocks watermarkBlocks manager
      engine stored) :
    Stored groupOf manager (engine.memory manager.blockAllocator.gpu.allBlockIndices.length)
      stored := by
  induction execution with
  | start engine =>
      exact .start _ (accounted_init blockSize numGpuBlocks numCpuBlocks watermarkBlocks positive)
        rfl _ _
  | @step manager manager' _ _ _ _ _ direction order _ scheduled any ih =>
      obtain ⟨swaps, copies, pending⟩ := scheduled.pending ih
      have gpu : manager'.blockAllocator.gpu.allBlockIndices =
          manager.blockAllocator.gpu.allBlockIndices := pending.all .gpu
      have made := pending.executeWorker any
      have holds := pending.holds
      rw [← made] at holds
      rw [gpu]
      exact holds
  | @compute manager engine stored table slots key values _ found located room mapped ih =>
      obtain ⟨slots', mapped', after⟩ := ih.compute found (located table found) values room
      have equal : slots = slots' := Option.some.inj (mapped.symm.trans mapped')
      rw [equal]
      exact after
  | @fork manager manager' engine stored table parent child _ found located absent group full run
      ih =>
      have lies := ih.accounted.lies found (located table found)
      obtain ⟨manager'', run', accounted, tables, all, _, size, watermark⟩ :=
        ih.accounted.forkTable_eq lies
          (fun id member => mem_references.mpr ⟨parent, table, found, member⟩) absent
      rw [BlockSpaceManagerV2.fork, found] at run
      have equal : manager'' = manager' := Except.ok.inj (run'.symm.trans run)
      subst equal
      have gpu : manager''.blockAllocator.gpu.allBlockIndices =
          manager.blockAllocator.gpu.allBlockIndices := all .gpu
      rw [gpu]
      refine ih.fork ⟨accounted, tables, all, size, watermark⟩ found full group ?_ ?_
      · intro other different
        exact Function.update_of_ne different _ _
      · exact Function.update_self _ _ _
  | @free manager manager' engine stored key _ located run ih =>
      obtain ⟨manager'', run', accounted, entries, all, size, _⟩ := ih.accounted.free_eq located
      have equal : manager'' = manager' := Except.ok.inj (run'.symm.trans run)
      subst equal
      have gpu : manager''.blockAllocator.gpu.allBlockIndices =
          manager.blockAllocator.gpu.allBlockIndices := all .gpu
      rw [gpu]
      have tables : ∀ other, manager''.blockTables.get? other =
          if other = key then none else manager.blockTables.get? other := by
        rw [Dict.eq_of_entries entries]
        exact fun other => Dict.get?_erase _ _ _
      exact ih.free accounted size tables

/-- A sequence on the GPU reads from the GPU's cache. -/
theorem Stored.reads_gpu (holds : Stored groupOf manager
      (engine.memory manager.blockAllocator.gpu.allBlockIndices.length) stored) {key : Nat}
    {table : BlockTable} (found : manager.blockTables.get? key = some table)
    (located : manager.Located .gpu key) {position : Nat} {value : ν}
    (computed : (stored key)[position]? = some value) :
    entry manager.blockSize engine.gpuCache table.physicalBlockIds position = some value := by
  have read := holds.reads key table found position value computed
  rw [entry, Option.map_eq_some_iff] at read ⊢
  obtain ⟨page, listed, held⟩ := read
  have low := holds.accounted.numbered.mem_gpu (located table found page
    (List.mem_of_getElem? listed))
  rw [CacheEngine.memory, if_pos low] at held
  exact ⟨page, listed, held⟩

/-- Whatever was copied on write, moved between the devices and given to others in between,
a sequence on the GPU finds there what was computed for each of its tokens. -/
theorem Execution.reads_own (positive : 0 < blockSize)
    (execution : Execution V groupOf blockSize numGpuBlocks numCpuBlocks watermarkBlocks manager
      engine stored) {key : Nat} {table : BlockTable}
    (found : manager.blockTables.get? key = some table) (located : manager.Located .gpu key)
    {position : Nat} {value : ν} (computed : (stored key)[position]? = some value) :
    entry manager.blockSize engine.gpuCache table.physicalBlockIds position = some value :=
  (execution.holds positive).reads_gpu found located computed

def promptEngine : CacheEngine Nat :=
  (⟨fun _ _ => 0, fun _ _ => 0⟩ : CacheEngine Nat).reshape 2 [0, 1, 2] [11, 12, 13]

def promptStored : Nat → List Nat :=
  Function.update (Function.update (fun key => if key ∈ [7] then [] else []) 7 [11, 12, 13]) 8
    [11, 12, 13]

theorem execution_promptAllocated (groupOf : Nat → Nat) :
    Execution Unit groupOf 2 4 3 0 promptAllocated promptEngine
      (Function.update (fun key => if key ∈ [7] then [] else []) 7 [11, 12, 13]) := by
  have allocated : Scheduled Unit groupOf .gpu (.init 2 4 3 0) (fun _ => ([] : List Nat))
      promptAllocated .none [] fun key => if key ∈ [7] then [] else [] :=
    .op (.allocate (promptGroup [promptSequence 7 [1, 2, 3] .waiting])) .begin
      ⟨promptSequence 7 [1, 2, 3] .waiting, rfl, by decide⟩ rfl
  have stepped : Execution Unit groupOf 2 4 3 0 promptAllocated
      (⟨fun _ _ => 0, fun _ _ => 0⟩ : CacheEngine Nat) fun key => if key ∈ [7] then [] else [] :=
    .step .gpu [] (.start ⟨fun _ _ => 0, fun _ _ => 0⟩) allocated (List.Perm.refl _)
  exact .compute 7 [11, 12, 13] stepped rfl located_promptAllocated (by decide) rfl

theorem execution_promptForked :
    Execution Unit (fun _ => 0) 2 4 3 0 promptForked promptEngine promptStored :=
  .fork 7 8 (execution_promptAllocated _) rfl located_promptAllocated rfl rfl rfl rfl

theorem reads_promptForked : ∃ table, promptForked.blockTables.get? 8 = some table ∧
    entry 2 promptEngine.gpuCache table.physicalBlockIds 2 = some 13 := by
  obtain ⟨table, found⟩ := Option.isSome_iff_exists.mp
    (rfl : (promptForked.blockTables.get? 8).isSome = true)
  have located : promptForked.Located .gpu 8 := by
    intro table found
    obtain rfl := Option.some.inj found
    decide
  exact ⟨table, found,
    Execution.reads_own (by decide) execution_promptForked found located rfl⟩

end Together

end ScalarLM.Cache
