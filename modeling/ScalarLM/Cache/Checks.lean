import Mathlib.Algebra.Order.BigOperators.Group.List
import ScalarLM.Cache.ManagerRuns

/-! What the manager's checks promise: when one of them passes, the blocks are there. -/

namespace ScalarLM.Cache

open Engine Paging

namespace BlockSpaceManagerV2

variable {manager : BlockSpaceManagerV2} {V : Type}

section Touched

def Started (manager : BlockSpaceManagerV2) (device : Device) (seq : Sequence) : Prop :=
  ∃ tokens, manager.Has device seq.seqId tokens ∧ tokens <+: seq.data.getTokenIds

def growth (manager : BlockSpaceManagerV2) (lookahead : Nat) (seq : Sequence) : Nat :=
  match manager.blockTables.get? seq.seqId with
  | none => 0
  | some table => cdiv (seq.data.getTokenIds.length + lookahead) manager.blockSize -
      table.numFullSlots / manager.blockSize

theorem length_unseen {device : Device} {seq : Sequence} {table : BlockTable} {tokens : List Nat}
    (lies : table.LiesOn device manager.blockAllocator manager.blockSize tokens)
    (before : tokens <+: seq.data.getTokenIds) :
    table.numFullSlots + (table.getUnseenTokenIds seq.data.getTokenIds).length =
      seq.data.getTokenIds.length := by
  have short := before.length_le
  rw [BlockTable.getUnseenTokenIds, lies.counted, List.length_drop]
  omega

theorem Accounted.full_le (accounted : manager.Accounted) {device : Device} {seq : Sequence}
    {table : BlockTable} {tokens : List Nat}
    (lies : table.LiesOn device manager.blockAllocator manager.blockSize tokens)
    (before : tokens <+: seq.data.getTokenIds) (lookahead : Nat) :
    table.numFullSlots / manager.blockSize ≤
      cdiv (seq.data.getTokenIds.length + lookahead) manager.blockSize := by
  refine (div_le_cdiv accounted.positive _).trans (cdiv_mono accounted.positive ?_)
  rw [lies.counted]
  exact before.length_le.trans (Nat.le_add_right _ _)

theorem Accounted.touched_eq (accounted : manager.Accounted) {device : Device} {seq : Sequence}
    (started : manager.Started device seq) (lookahead : Nat) :
    manager.touched seq lookahead = .ok (manager.growth lookahead seq) := by
  obtain ⟨tokens, ⟨table, found, lies⟩, before⟩ := started
  have least := accounted.full_le lies before lookahead
  rw [touched, tableOf_eq found]
  simp only [bind, Except.bind, pure, Except.pure]
  rw [table.touched_eq accounted.positive, length_unseen lies before, growth, found,
    ← Int.ofNat_sub least]

/-- What appending takes is among what is touched, however many blocks are shared. -/
theorem Accounted.required_le (accounted : manager.Accounted) {device : Device} {seq : Sequence}
    (started : manager.Started device seq) (lookahead : Nat) :
    manager.required lookahead seq (manager.blocksOf seq.seqId) ≤
      manager.growth lookahead seq := by
  obtain ⟨tokens, ⟨table, found, lies⟩, before⟩ := started
  have least := accounted.full_le lies before lookahead
  have room := lies.length_le
  have early : table.numFullSlots / manager.blockSize ≤ table.physicalBlockIds.length := by
    rw [lies.counted]
    exact Nat.div_le_of_le_mul (by rw [Nat.mul_comm]; exact room)
  rw [required, blocksOf, growth, found]
  simp only [length_unseen lies before]
  omega

theorem unshared_behind (manager : BlockSpaceManagerV2) (key : Nat) :
    manager.Unshared key (manager.blocksOf key) := by
  intro table found
  rw [blocksOf, found]
  exact ⟨Nat.le_refl _, alone_behind table _⟩

theorem sum_cast (seqs : List Sequence) (count : Sequence → Nat) :
    (seqs.map fun seq => (count seq : Int)).sum = ((seqs.map count).sum : Nat) := by
  induction seqs with
  | nil => rfl
  | cons seq rest ih =>
      rw [List.map_cons, List.map_cons, List.sum_cons, List.sum_cons, ih, Int.natCast_add]

theorem Accounted.mapM_touched (accounted : manager.Accounted) {device : Device}
    {seqs : List Sequence} (started : ∀ seq ∈ seqs, manager.Started device seq)
    (lookahead : Nat) :
    seqs.mapM (fun seq => manager.touched seq lookahead) =
      .ok (seqs.map fun seq => (manager.growth lookahead seq : Int)) :=
  mapM_ok _ _ seqs fun seq member => accounted.touched_eq (started seq member) lookahead

end Touched

section Append

/-- When the check passes, the running sequences of a group can be appended to one after the
other. -/
theorem Accounted.append_checked (accounted : manager.Accounted) {lookahead : Nat}
    (tight : manager.Tight lookahead) {group : SequenceGroup V}
    (once : ((group.getSeqs .running).map Sequence.seqId).Nodup)
    (started : ∀ seq ∈ group.getSeqs .running, manager.Started .gpu seq)
    (check : manager.canAppendSlots group lookahead = .ok true) :
    ∃ cows after, manager.appendAll lookahead (group.getSeqs .running) = .ok (cows, after) ∧
      Changes manager after ((group.getSeqs .running).map Sequence.seqId) ∧
      after.Tight lookahead ∧
      ∀ seq ∈ group.getSeqs .running, after.Has .gpu seq.seqId seq.data.getTokenIds := by
  refine accounted.appendAll_outcome _ tight once started manager.blocksOf
    (fun seq _ => manager.unshared_behind seq.seqId) ?_
  rw [canAppendSlots, accounted.mapM_touched started] at check
  have passed := of_decide_eq_true (Except.ok.inj check)
  rw [sum_cast] at passed
  refine (List.sum_le_sum fun seq member => ?_).trans (Int.ofNat_le.mp passed)
  exact accounted.required_le (started seq member) lookahead

theorem Accounted.canAppendSlots_returns (accounted : manager.Accounted) {group : SequenceGroup V}
    (started : ∀ seq ∈ group.getSeqs .running, manager.Started .gpu seq) (lookahead : Nat) :
    ∃ answer, manager.canAppendSlots group lookahead = .ok answer := by
  rw [canAppendSlots, accounted.mapM_touched started]
  exact ⟨_, rfl⟩

end Append

section Allocate

theorem Accounted.allocate_checked (accounted : manager.Accounted) {lookahead more : Nat}
    (tight : manager.Tight lookahead) {group : SequenceGroup V} {seq : Sequence}
    (waiting : group.getSeqs .waiting = [seq]) (prompt : seq.data.getTokenIds ≠ [])
    (absent : manager.blockTables.get? seq.seqId = none)
    (check : manager.canAllocate group more = .ok .ok) :
    ∃ after, manager.allocate group = .ok after ∧ Changes manager after [seq.seqId] ∧
      after.Tight lookahead ∧ after.Has .gpu seq.seqId seq.data.getTokenIds := by
  rcases accounted.allocate_outcome waiting prompt (List.nodup_singleton _)
    (fun other member => List.mem_singleton.mp member ▸ absent) with
    ⟨after, table, run, accounted', tables, lies, _, few, all, _, size, watermark⟩ | ⟨_, few⟩
  · have sets : Sets manager after seq.seqId table := ⟨accounted', tables, all, size, watermark⟩
    refine ⟨after, run, sets.changes, sets.tight tight ?_, sets.has lies⟩
    rw [lies.counted]
    exact few.trans (cdiv_mono accounted.positive (Nat.le_add_right _ _))
  · rw [canAllocate, waiting] at check
    simp only at check
    split at check
    · cases check
    · split at check
      · rename_i enough
        have least : cdiv seq.data.getTokenIds.length manager.blockSize ≤
            BlockTable.getNumRequiredBlocks seq.data.getTokenIds manager.blockSize more :=
          cdiv_mono accounted.positive (Nat.le_add_right _ _)
        omega
      · cases check

end Allocate

section Swap

theorem full_le_getNumFullBlocksTouched {device : Device} {table : BlockTable}
    {tokens : List Nat} (accounted : manager.Accounted)
    (lies : table.LiesOn device manager.blockAllocator manager.blockSize tokens)
    (target : Device) : tokens.length / manager.blockSize ≤
      (manager.blockAllocator.on target).getNumFullBlocksTouched table.blocks.blocks := by
  have room := lies.holds.room
  have early : tokens.length / manager.blockSize ≤ table.blocks.blocks.length :=
    Nat.div_le_of_le_mul (by rw [Nat.mul_comm]; exact room)
  have full : ∀ block ∈ table.blocks.blocks.take (tokens.length / manager.blockSize),
      block.isFull manager.blockSize = true := by
    intro block member
    obtain ⟨index, found⟩ := List.getElem?_of_mem member
    rw [List.getElem?_take] at found
    split at found
    · rename_i before
      have cut := lies.holds.cut index block found
      have behind : (index + 1) * manager.blockSize ≤ tokens.length :=
        (Nat.mul_le_mul_right _ before).trans (Nat.div_mul_le_self _ _)
      rw [Nat.succ_mul] at behind
      rw [Block.isFull, Block.numEmptySlots, cut, length_block, decide_eq_true_eq]
      omega
    · cases found
  have counted : ((table.blocks.blocks.take (tokens.length / manager.blockSize)).filter
      (Block.isFull manager.blockSize)).length = tokens.length / manager.blockSize := by
    rw [List.filter_eq_self.mpr full, List.length_take, Nat.min_eq_left early]
  rw [NaiveBlockAllocator.getNumFullBlocksTouched, accounted.size, ← counted]
  exact ((List.take_sublist _ _).filter _).length_le

theorem mapM_tableOf {device : Device} {seqs : List Sequence}
    (started : ∀ seq ∈ seqs, manager.Started device seq) :
    seqs.mapM (fun seq => manager.tableOf seq.seqId) =
      .ok (seqs.map fun seq => (manager.blockTables.get? seq.seqId).getD .empty) := by
  refine mapM_ok _ _ _ fun seq member => ?_
  obtain ⟨tokens, ⟨table, found, _⟩, _⟩ := started seq member
  rw [tableOf_eq found, found]
  rfl

theorem Accounted.canSwap_returns (accounted : manager.Accounted) {group : SequenceGroup V}
    {status : SequenceStatus} {source : Device}
    (started : ∀ seq ∈ group.getSeqs status, manager.Started source seq) (target : Device)
    (lookahead : Nat) : ∃ answer, manager.canSwap group target status lookahead = .ok answer := by
  rw [canSwap, accounted.mapM_touched started]
  simp only [bind, Except.bind, mapM_tableOf started]
  generalize (if target = .gpu then manager.watermarkBlocks else 0) = watermark
  split
  · exact ⟨_, rfl⟩
  · split
    · exact ⟨_, rfl⟩
    · exact ⟨_, rfl⟩

/-- When the check passes for the slots that tables are given, the other device has room for
all blocks of the sequences, and for those of their next slots. -/
theorem Accounted.swap_room (accounted : manager.Accounted) {lookahead : Nat}
    {group : SequenceGroup V} {status : SequenceStatus} {source target : Device}
    (started : ∀ seq ∈ group.getSeqs status, manager.Started source seq)
    (check : manager.canSwap group target status lookahead = .ok .ok) :
    ((group.getSeqs status).map fun seq =>
      cdiv (seq.data.getTokenIds.length + lookahead) manager.blockSize).sum ≤
        (manager.blockAllocator.on target).freeBlockIndices.length := by
  rw [canSwap, accounted.mapM_touched started] at check
  simp only [bind, Except.bind, mapM_tableOf started, pure, Except.pure, sum_cast] at check
  generalize (if target = .gpu then manager.watermarkBlocks else 0) = watermark at check
  split at check
  · cases check
  · split at check
    · rename_i enough
      have full : ((group.getSeqs status).map fun seq =>
          (manager.blockAllocator.on target).getNumFullBlocksTouched
            ((manager.blockTables.get? seq.seqId).getD .empty).blocks.blocks).sum =
          (manager.blockAllocator.on target).getNumFullBlocksTouched
            (((group.getSeqs status).map fun seq =>
              (manager.blockTables.get? seq.seqId).getD .empty).flatMap
                fun table => table.blocks.blocks) := by
        rw [NaiveBlockAllocator.getNumFullBlocksTouched, List.flatMap_map, List.filter_flatMap,
          List.length_flatMap]
        rfl
      rw [← full] at enough
      have each : ((group.getSeqs status).map fun seq =>
          cdiv (seq.data.getTokenIds.length + lookahead) manager.blockSize).sum ≤
          ((group.getSeqs status).map fun seq => manager.growth lookahead seq +
            (manager.blockAllocator.on target).getNumFullBlocksTouched
              ((manager.blockTables.get? seq.seqId).getD .empty).blocks.blocks).sum := by
        refine List.sum_le_sum fun seq member => ?_
        obtain ⟨tokens, ⟨table, found, lies⟩, before⟩ := started seq member
        have most := full_le_getNumFullBlocksTouched accounted lies target
        rw [growth, found, Option.getD_some]
        simp only [lies.counted]
        omega
      rw [List.sum_map_add] at each
      omega
    · cases check

theorem Tight.blocksOf_le {lookahead : Nat} (tight : manager.Tight lookahead)
    (accounted : manager.Accounted) {device : Device} {seq : Sequence}
    (started : manager.Started device seq) : manager.blocksOf seq.seqId ≤
      cdiv (seq.data.getTokenIds.length + lookahead) manager.blockSize := by
  obtain ⟨tokens, ⟨table, found, lies⟩, before⟩ := started
  rw [blocksOf, found]
  refine (tight seq.seqId table found).trans (cdiv_mono accounted.positive ?_)
  have short := before.length_le
  rw [lies.counted]
  omega

/-- When the check passes, the swapped sequences of a group can be moved back, and appended
to next. -/
theorem Accounted.swapIn_checked (accounted : manager.Accounted) {lookahead : Nat}
    (tight : manager.Tight lookahead) {group : SequenceGroup V}
    (once : ((group.getSeqs .swapped).map Sequence.seqId).Nodup)
    (started : ∀ seq ∈ group.getSeqs .swapped, manager.Started .cpu seq)
    (check : manager.canSwapIn group lookahead = .ok .ok) :
    ∃ moves middle cows after, manager.swapIn group = .ok (moves, middle) ∧
      middle.appendAll lookahead ((group.getSeqs .swapped).map fun seq =>
        { seq with status := .running }) = .ok (cows, after) ∧
      Changes manager middle ((group.getSeqs .swapped).map Sequence.seqId) ∧
      Changes middle after ((group.getSeqs .swapped).map Sequence.seqId) ∧
      middle.Tight lookahead ∧ after.Tight lookahead ∧
      (∀ seq ∈ group.getSeqs .swapped, middle.Started .gpu seq) ∧
      ∀ seq ∈ group.getSeqs .swapped, after.Has .gpu seq.seqId seq.data.getTokenIds := by
  have room := accounted.swap_room started check
  have few : ∀ seq ∈ group.getSeqs .swapped, manager.blocksOf seq.seqId ≤
      cdiv (seq.data.getTokenIds.length + lookahead) manager.blockSize :=
    fun seq member => tight.blocksOf_le accounted (started seq member)
  obtain ⟨moves, middle, run, changes, tight', has, alone, _, free⟩ :=
    accounted.swapSequences_outcome (group.getSeqs .swapped) tight
      (by decide : Device.gpu ≠ Device.cpu) once
      (fun seq member => (started seq member).imp fun tokens given => given.1)
      ((List.sum_le_sum few).trans room)
  have started' : ∀ seq ∈ group.getSeqs .swapped, middle.Started .gpu seq := by
    intro seq member
    obtain ⟨tokens, given, before⟩ := started seq member
    exact ⟨tokens, has seq member tokens given, before⟩
  have ids : (((group.getSeqs .swapped).map fun seq =>
      { seq with status := SequenceStatus.running }).map Sequence.seqId) =
        (group.getSeqs .swapped).map Sequence.seqId := by
    rw [List.map_map]
    rfl
  obtain ⟨cows, after, run', changes', tight'', has'⟩ := changes.accounted.appendAll_outcome
    ((group.getSeqs .swapped).map fun seq => { seq with status := SequenceStatus.running }) tight'
    (ids ▸ once)
    (by
      intro seq member
      obtain ⟨before, swapped, same⟩ := List.mem_map.mp member
      rw [← same]
      exact started' before swapped)
    (fun _ => 0)
    (by
      intro seq member
      obtain ⟨before, swapped, same⟩ := List.mem_map.mp member
      rw [← same]
      exact (alone before swapped).1)
    (by
      rw [List.map_map]
      have each : ((group.getSeqs .swapped).map fun seq => middle.required lookahead
          { seq with status := SequenceStatus.running } 0 + manager.blocksOf seq.seqId).sum ≤
          ((group.getSeqs .swapped).map fun seq =>
            cdiv (seq.data.getTokenIds.length + lookahead) manager.blockSize).sum := by
        refine List.sum_le_sum fun seq member => ?_
        obtain ⟨tokens, ⟨table, found, lies⟩, before⟩ := started' seq member
        have same := (alone seq member).2
        have least := few seq member
        rw [blocksOf, found] at same
        simp only [required, found, length_unseen lies before, changes.size, Nat.zero_min,
          Nat.zero_sub, Nat.add_zero]
        simp only at same
        omega
      rw [List.sum_map_add] at each
      change (manager.blockAllocator.gpu.freeBlockIndices.length =
        middle.blockAllocator.gpu.freeBlockIndices.length + _) at free
      change _ ≤ manager.blockAllocator.gpu.freeBlockIndices.length at room
      exact Nat.le_of_add_le_add_right (each.trans (room.trans (Nat.le_of_eq free))))
  refine ⟨moves, middle, cows, after, run, run', changes, ids ▸ changes', tight', tight'', started',
    ?_⟩
  intro seq member
  exact has' { seq with status := .running } (List.mem_map_of_mem member)

theorem Accounted.swapOut_checked (accounted : manager.Accounted) (tight : manager.Tight 0)
    {group : SequenceGroup V} (once : ((group.getSeqs .running).map Sequence.seqId).Nodup)
    (started : ∀ seq ∈ group.getSeqs .running, manager.Started .gpu seq)
    (check : manager.canSwapOut group = .ok true) :
    ∃ moves after, manager.swapOut group = .ok (moves, after) ∧
      Changes manager after ((group.getSeqs .running).map Sequence.seqId) ∧ after.Tight 0 ∧
      ∀ seq ∈ group.getSeqs .running, after.Started .cpu seq := by
  obtain ⟨status, passed, answer⟩ := ok_of_bind check
  have okay : status = .ok := of_decide_eq_true (Except.ok.inj answer)
  rw [okay] at passed
  have few : ∀ seq ∈ group.getSeqs .running, manager.blocksOf seq.seqId ≤
      cdiv (seq.data.getTokenIds.length + 0) manager.blockSize :=
    fun seq member => tight.blocksOf_le accounted (started seq member)
  obtain ⟨moves, after, run, changes, tight', has, _⟩ :=
    accounted.swapSequences_outcome (group.getSeqs .running) tight
      (by decide : Device.cpu ≠ Device.gpu) once
      (fun seq member => (started seq member).imp fun tokens given => given.1)
      ((List.sum_le_sum few).trans (accounted.swap_room started passed))
  refine ⟨moves, after, run, changes, tight', fun seq member => ?_⟩
  obtain ⟨tokens, given, before⟩ := started seq member
  exact ⟨tokens, has seq member tokens given, before⟩

end Swap

end BlockSpaceManagerV2

end ScalarLM.Cache
