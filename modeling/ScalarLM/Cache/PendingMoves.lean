import ScalarLM.Cache.ScheduleSteps
import ScalarLM.Lib.Outcome

/-! While a step is scheduled the transfers are outstanding: with all of them made, each
sequence would read its own. -/

namespace ScalarLM.Cache

open Engine Paging BlockSpaceManagerV2

variable {ν V : Type} {groupOf : Nat → Nat} {direction : Device}
  {manager manager' : BlockSpaceManagerV2} {memory : BlockId → Nat → ν} {transfers : Transfers}
  {swaps copies : List (BlockId × BlockId)} {touched : List Nat} {stored : Nat → List ν}
  {blocks : CpuGpuBlockAllocator}

/-- In the middle of a step. The swaps will be made before the copies, in whatever order
they were asked for. -/
structure Pending (groupOf : Nat → Nat) (direction : Device) (blocks : CpuGpuBlockAllocator)
    (manager : BlockSpaceManagerV2) (memory : BlockId → Nat → ν) (transfers : Transfers)
    (swaps copies : List (BlockId × BlockId)) (touched : List Nat) (stored : Nat → List ν) :
    Prop where
  holds : Stored groupOf manager (copyAll memory (swaps ++ copies)) stored
  gathered : Gathered groupOf manager copies touched
  all : ∀ device, (manager.blockAllocator.on device).allBlockIndices =
    (blocks.on device).allBlockIndices
  told : transfers = (Transfers.none.swap direction
    (physicalMoves blocks direction.opposite direction swaps)).copy copies
  swapped : ∀ move ∈ swaps, move.1 ∈ (blocks.on direction.opposite).allBlockIndices ∧
    move.2 ∈ (blocks.on direction).allBlockIndices
  copied : ∀ move ∈ copies, move.1 ∈ blocks.gpu.allBlockIndices ∧
    move.2 ∈ blocks.gpu.allBlockIndices

theorem physicalMoves_congr {allocator allocator' : CpuGpuBlockAllocator}
    (all : ∀ device, (allocator'.on device).allBlockIndices =
      (allocator.on device).allBlockIndices) (source target : Device)
    (moves : List (BlockId × BlockId)) :
    physicalMoves allocator' source target moves = physicalMoves allocator source target moves := by
  have gpu : allocator'.gpu.allBlockIndices = allocator.gpu.allBlockIndices := all .gpu
  have numbers : ∀ device id, physical allocator' device id = physical allocator device id := by
    intro device id
    cases device
    · rw [physical, physical, gpu]
    · rfl
  exact List.map_congr_left fun move _ => by rw [numbers, numbers]

namespace Pending

theorem start (holds : Stored groupOf manager memory stored) :
    Pending groupOf direction manager.blockAllocator manager memory .none [] [] [] stored where
  holds := holds
  gathered := .start manager
  all _ := rfl
  told := by cases direction <;> rfl
  swapped _ member := absurd member List.not_mem_nil
  copied _ member := absurd member List.not_mem_nil

theorem append (pending : Pending groupOf direction blocks manager memory transfers swaps copies
      touched stored) {seq : Sequence} {lookahead : Nat} {cows : List (BlockId × BlockId)}
    (located : manager.Located .gpu seq.seqId)
    (run : manager.appendSlots seq lookahead = .ok (cows, manager')) :
    Pending groupOf direction blocks manager' memory (transfers.copy cows) swaps (copies ++ cows)
      (groupOf seq.seqId :: touched) stored := by
  obtain ⟨table, place, _⟩ := ok_of_bind run
  have found := found_of_tableOf place
  have accounted := pending.holds.accounted
  have lies := accounted.lies found (located table found)
  rcases accounted.appendSlots_outcome found lies (Nat.le_refl _) (alone_behind table _)
    lookahead with
    ⟨cows', manager'', table', run', sets, edits, _, lies', _, own⟩ | ⟨run', _⟩
  · rw [run'] at run
    have pair := Except.ok.inj run
    have equal : cows' = cows := congrArg Prod.fst pair
    have equal' : manager'' = manager' := congrArg Prod.snd pair
    subst equal equal'
    have moved : copyAll memory (swaps ++ (copies ++ cows')) =
        copyAll (copyAll memory (swaps ++ copies)) cows' := by
      rw [← List.append_assoc, copyAll_append]
    refine ⟨?_, ?_, fun device => (sets.all device).trans (pending.all device), ?_,
      pending.swapped, ?_⟩
    · rw [moved]
      refine pending.holds.exchange sets (fun _ _ => rfl) ?_ ?_ ?_ ?_ ?_
      · intro id shared
        exact copyAll_of_not_mem _ cows' fun target => edits.targets_strange target shared
      · exact edits.reads (pending.holds.reads seq.seqId table found)
      · refine (pending.holds.fits seq.seqId table found).trans ?_
        rw [lies'.counted, lies.counted, List.length_append]
        exact Nat.le_add_right _ _
      · intro position id late early place shared
        rw [lies'.counted, List.length_append] at early
        by_cases before : position < table.numFullSlots
        · exact pending.holds.own seq.seqId table found position id late before
            (edits.kept place shared) shared
        · rw [lies.counted] at before
          exact own position id (Nat.le_of_not_lt before) early place shared
      · intro id member shared
        obtain ⟨index, place⟩ := List.getElem?_of_mem member
        exact ⟨table, found, List.mem_of_getElem? (edits.kept place shared)⟩
    · exact pending.gathered.append sets found
        (fun other held found' id member member' =>
          pending.holds.grouped other seq.seqId held table id found' found member' member) edits
    · rw [pending.told, Transfers.copy, Transfers.copy, Transfers.copy, List.append_assoc]
    · intro move member
      rcases List.mem_append.mp member with earlier | later
      · exact pending.copied move earlier
      · have source := lies.within _ (edits.sources_listed later)
        have target := lies'.within _ (edits.targets_listed (List.mem_map_of_mem later))
        rw [pending.all] at source
        rw [sets.all, pending.all] at target
        exact ⟨source, target⟩
  · rw [run'] at run
    cases run

theorem free (pending : Pending groupOf direction blocks manager memory transfers swaps copies
      touched stored) {key : Nat} (located : manager.Located .gpu key)
    (untouched : groupOf key ∉ touched)
    (run : manager.free key = .ok manager') :
    Pending groupOf direction blocks manager' memory transfers swaps copies touched stored := by
  obtain ⟨manager'', run', accounted, entries, all, size, _⟩ :=
    pending.holds.accounted.free_eq located
  rw [run'] at run
  have equal := Except.ok.inj run
  subst equal
  have tables : ∀ other, manager''.blockTables.get? other =
      if other = key then none else manager.blockTables.get? other := by
    rw [Dict.eq_of_entries entries]
    exact fun other => Dict.get?_erase _ _ _
  exact ⟨pending.holds.free accounted size tables, pending.gathered.free untouched tables,
    fun device => (all device).trans (pending.all device), pending.told, pending.swapped,
    pending.copied⟩

/-- The blocks of a sequence go to the other device. Its moves have no block in common with
the copies, and can be made before these. -/
theorem swapSequence
    (pending : Pending groupOf direction blocks manager memory transfers swaps copies
      touched stored) {seq : Sequence} {moves : List (Nat × Nat)}
    (located : manager.Located direction.opposite seq.seqId)
    (untouched : groupOf seq.seqId ∉ touched)
    (run : manager.swapSequence direction.opposite direction seq = .ok (moves, manager')) :
    ∃ swaps' table', Sets manager manager' seq.seqId table' ∧
      Pending groupOf direction blocks manager' memory (transfers.swap direction moves)
        (swaps ++ swaps') copies touched stored := by
  obtain ⟨table, place, _⟩ := ok_of_bind run
  have found := found_of_tableOf place
  have accounted := pending.holds.accounted
  have lies := accounted.lies found (located table found)
  rcases accounted.swapSequence_outcome direction.opposite_ne found lies with
    ⟨swaps', manager'', table', run', sets, zipped, fresh, lengths, lies', _⟩ | ⟨run', _⟩
  · rw [run'] at run
    have pair := Except.ok.inj run
    have equal : physicalMoves manager.blockAllocator direction.opposite direction swaps' = moves :=
      congrArg Prod.fst pair
    have equal' : manager'' = manager' := congrArg Prod.snd pair
    subst equal equal'
    have within' : ∀ id ∈ table'.physicalBlockIds,
        id ∈ (manager.blockAllocator.on direction).allBlockIndices := by
      intro id member
      rw [← sets.all]
      exact lies'.within id member
    have ends : ∀ move ∈ swaps', move.1 ∈ table.physicalBlockIds ∧
        move.2 ∈ table'.physicalBlockIds := by
      intro move member
      rw [zipped] at member
      exact List.of_mem_zip member
    have other : ∀ {holder held}, manager.blockTables.get? holder = some held →
        groupOf holder ∈ touched → holder ≠ seq.seqId := by
      intro holder held _ member same
      exact untouched (same ▸ member)
    have moved : copyAll memory (swaps ++ swaps' ++ copies) =
        copyAll (copyAll memory (swaps ++ copies)) swaps' := by
      rw [List.append_assoc, copyAll_append, copyAll_append memory swaps copies,
        ← copyAll_append (copyAll memory swaps) copies swaps']
      refine copyAll_comm _ swaps' copies fun first made second made' => ?_
      obtain ⟨left, right⟩ := ends first made
      obtain ⟨holder, held, before, inside, listed⟩ := pending.gathered.sources second made'
      obtain ⟨holder', held', before', inside', listed', alone⟩ :=
        pending.gathered.targets second made'
      have different := other before inside
      have different' := other before' inside'
      refine ⟨?_, ?_, ?_⟩
      · intro same
        rw [same] at left
        exact alone (mem_references_erase.mpr ⟨_, table, different'.symm, found, left⟩)
      · intro same
        rw [same] at right
        exact fresh _ right (mem_references_erase.mpr ⟨holder, held, different, before, listed⟩)
      · intro same
        rw [same] at right
        exact fresh _ right
          (mem_references_erase.mpr ⟨holder', held', different', before', listed'⟩)
    have counted : table'.numFullSlots = table.numFullSlots :=
      lies'.counted.trans lies.counted.symm
    refine ⟨swaps', table', sets, ?_, ?_, fun device => (sets.all device).trans
      (pending.all device), ?_, ?_, pending.copied⟩
    · rw [moved]
      refine pending.holds.exchange sets (fun _ _ => rfl) ?_ ?_ ?_ ?_ ?_
      · intro id shared
        refine copyAll_of_not_mem _ swaps' fun target => ?_
        obtain ⟨move, made, same⟩ := List.mem_map.mp target
        exact fresh _ (ends move made).2 (same ▸ shared)
      · rw [zipped]
        refine (pending.holds.reads seq.seqId table found).replace lengths.symm lies'.once ?_
        intro id member old
        exact direction.opposite_ne
          (accounted.numbered.apart (within' id member) (lies.within id old))
      · rw [counted]
        exact pending.holds.fits seq.seqId table found
      · intro position id _ _ place
        exact fresh id (List.mem_of_getElem? place)
      · intro id member shared
        exact absurd shared (fresh id member)
    · exact pending.gathered.set sets (fun _ _ => untouched) fresh
    · rw [pending.told, physicalMoves_congr pending.all]
      cases direction <;>
        simp [Transfers.swap, Transfers.copy, Transfers.none, physicalMoves, List.map_append]
    · intro move member
      rcases List.mem_append.mp member with earlier | later
      · exact pending.swapped move earlier
      · have source := lies.within _ (ends move later).1
        have target := within' _ (ends move later).2
        rw [pending.all] at source target
        exact ⟨source, target⟩
  · rw [run'] at run
    cases run

theorem swapSequences (seqs : List Sequence) {moves : List (Nat × Nat)}
    (pending : Pending groupOf direction blocks manager memory transfers swaps copies
      touched stored)
    (movable : Movable manager direction seqs)
    (untouched : ∀ seq ∈ seqs, groupOf seq.seqId ∉ touched)
    (run : BlockSpaceManagerV2.swapSequences manager direction.opposite direction seqs =
      .ok (moves, manager')) :
    ∃ swaps', Pending groupOf direction blocks manager' memory (transfers.swap direction moves)
      (swaps ++ swaps') copies touched stored := by
  induction seqs generalizing manager transfers swaps moves with
  | nil =>
      have pair := Except.ok.inj run
      have equal : [] = moves := congrArg Prod.fst pair
      have equal' : manager = manager' := congrArg Prod.snd pair
      subst equal equal'
      have same : transfers.swap direction [] = transfers := by
        cases direction <;> simp [Transfers.swap]
      exact ⟨[], by rw [same, List.append_nil]; exact pending⟩
  | cons seq rest ih =>
      rw [BlockSpaceManagerV2.swapSequences] at run
      obtain ⟨⟨told, middle⟩, first, run⟩ := ok_of_bind run
      obtain ⟨⟨others, final⟩, later, run⟩ := ok_of_bind run
      obtain ⟨rfl, rfl⟩ := Prod.mk.inj (Except.ok.inj run)
      obtain ⟨swaps', table', sets, pending'⟩ := pending.swapSequence
        (movable.located seq List.mem_cons_self) (untouched seq List.mem_cons_self) first
      have once := List.nodup_cons.mp movable.once
      have movable' : Movable middle direction rest := by
        refine ⟨once.2, ?_⟩
        intro other member table found id listed
        have different : other.seqId ≠ seq.seqId := fun same =>
          once.1 (same ▸ List.mem_map_of_mem member)
        rw [sets.tables, get?_set_other _ different] at found
        rw [sets.all]
        exact movable.located other (List.mem_cons_of_mem _ member) table found id listed
      obtain ⟨swaps'', pending''⟩ := ih pending' movable'
        (fun other member => untouched other (List.mem_cons_of_mem _ member)) later
      refine ⟨swaps' ++ swaps'', ?_⟩
      have same : transfers.swap direction (told ++ others) =
          (transfers.swap direction told).swap direction others := by
        cases direction <;> simp [Transfers.swap]
      rw [same, ← List.append_assoc]
      exact pending''

theorem allocate (pending : Pending groupOf direction blocks manager memory transfers swaps copies
      touched stored) {group : SequenceGroup V} {seq : Sequence}
    (waiting : group.getSeqs .waiting = [seq]) (prompt : seq.data.getTokenIds ≠ [])
    (run : manager.allocate group = .ok manager') :
    Pending groupOf direction blocks manager' memory transfers swaps copies touched
      ((ScheduleOp.allocate group).store stored) := by
  have absent : manager.blockTables.get? seq.seqId = none := by
    rw [BlockSpaceManagerV2.allocate, waiting] at run
    cases place : manager.blockTables.get? seq.seqId with
    | none => rfl
    | some table =>
        simp only [List.any_cons, place, Option.isSome_some, Bool.true_or, if_true] at run
        cases run
  rcases pending.holds.accounted.allocate_outcome waiting prompt (List.nodup_singleton _)
    (fun other member => List.mem_singleton.mp member ▸ absent) with
    ⟨manager'', table, run', accounted, tables, lies, fresh, _, all, _, size, watermark⟩ | ⟨run', _⟩
  · rw [run'] at run
    have equal := Except.ok.inj run
    subst equal
    have sets : Sets manager manager'' seq.seqId table := ⟨accounted, tables, all, size, watermark⟩
    have fresh' : ∀ id ∈ table.physicalBlockIds,
        id ∉ references (manager.blockTables.erase seq.seqId) := by
      rw [references_absent absent]
      exact fresh
    have emptied : (ScheduleOp.allocate group).store stored seq.seqId = [] := by
      simp [ScheduleOp.store, waiting]
    refine ⟨?_, ?_, fun device => (all device).trans (pending.all device), pending.told,
      pending.swapped, pending.copied⟩
    · refine pending.holds.exchange sets ?_ (fun _ _ => rfl) ?_ ?_ ?_ ?_
      · intro other different
        simp [ScheduleOp.store, waiting, different]
      · rw [emptied]
        intro position value given
        cases List.getElem?_nil.symm.trans given
      · rw [emptied]
        exact Nat.zero_le _
      · intro position id _ _ place
        exact fresh' id (List.mem_of_getElem? place)
      · intro id member shared
        exact absurd shared (fresh' id member)
    · refine pending.gathered.set sets (fun old found => ?_) fresh'
      rw [absent] at found
      cases found
  · rw [run'] at run
    cases run

theorem perform (pending : Pending groupOf direction blocks manager memory transfers swaps copies
      touched stored) (op : ScheduleOp V) (allowed : op.Allowed groupOf direction manager touched)
    {transfers' : Transfers} (run : op.perform manager transfers = .ok (transfers', manager')) :
    ∃ swaps' copies', Pending groupOf direction blocks manager' memory transfers' swaps' copies'
      (op.touches groupOf ++ touched) (op.store stored) := by
  cases op with
  | allocate group =>
      obtain ⟨seq, waiting, prompt⟩ := allowed
      obtain ⟨after, made, rest⟩ := ok_of_bind run
      obtain ⟨rfl, rfl⟩ := Prod.mk.inj (Except.ok.inj rest)
      exact ⟨swaps, copies, pending.allocate waiting prompt made⟩
  | appendSlots seq lookahead =>
      obtain ⟨⟨cows, after⟩, made, rest⟩ := ok_of_bind run
      obtain ⟨rfl, rfl⟩ := Prod.mk.inj (Except.ok.inj rest)
      exact ⟨swaps, copies ++ cows, pending.append allowed made⟩
  | free key =>
      obtain ⟨after, made, rest⟩ := ok_of_bind run
      obtain ⟨rfl, rfl⟩ := Prod.mk.inj (Except.ok.inj rest)
      exact ⟨swaps, copies, pending.free allowed.1 allowed.2 made⟩
  | swapIn group =>
      obtain ⟨rfl, movable, untouched⟩ := allowed
      obtain ⟨⟨moves, after⟩, made, rest⟩ := ok_of_bind run
      obtain ⟨rfl, rfl⟩ := Prod.mk.inj (Except.ok.inj rest)
      obtain ⟨swaps', pending'⟩ := pending.swapSequences _ movable untouched made
      exact ⟨swaps ++ swaps', copies, pending'⟩
  | swapOut group =>
      obtain ⟨rfl, movable, untouched⟩ := allowed
      obtain ⟨⟨moves, after⟩, made, rest⟩ := ok_of_bind run
      obtain ⟨rfl, rfl⟩ := Prod.mk.inj (Except.ok.inj rest)
      obtain ⟨swaps', pending'⟩ := pending.swapSequences _ movable untouched made
      exact ⟨swaps ++ swaps', copies, pending'⟩

end Pending

end ScalarLM.Cache
