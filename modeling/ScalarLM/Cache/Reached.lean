import ScalarLM.Cache.Checks

/-! The states that the manager can reach, whatever is asked of it in which order. -/

namespace ScalarLM.Cache

open Engine Paging BlockSpaceManagerV2

section Runs

/-- Runs of the manager, with the tokens that each sequence has slots for. Sequences are new
when they are given a table, and grow by tokens at their end. They are freed and forked while
they are on the GPU. -/
inductive Reached (V : Type)
    (blockSize numGpuBlocks numCpuBlocks watermarkBlocks numLookaheadSlots : Nat) :
    BlockSpaceManagerV2 → (Nat → List Nat) → Prop where
  | start : Reached V blockSize numGpuBlocks numCpuBlocks watermarkBlocks numLookaheadSlots
      (.init blockSize numGpuBlocks numCpuBlocks watermarkBlocks) fun _ => []
  | allocate {manager manager' : BlockSpaceManagerV2} {tokens : Nat → List Nat}
      (group : SequenceGroup V) (seq : Sequence) (rest : List Sequence) :
      Reached V blockSize numGpuBlocks numCpuBlocks watermarkBlocks numLookaheadSlots manager
        tokens →
      group.getSeqs .waiting = seq :: rest → seq.data.getTokenIds ≠ [] →
      ((seq :: rest).map Sequence.seqId).Nodup → manager.allocate group = .ok manager' →
      Reached V blockSize numGpuBlocks numCpuBlocks watermarkBlocks numLookaheadSlots manager'
        fun key => if key ∈ (seq :: rest).map Sequence.seqId then seq.data.getTokenIds
          else tokens key
  | appendSlots {manager manager' : BlockSpaceManagerV2} {tokens : Nat → List Nat}
      {cows : List (BlockId × BlockId)} (seq : Sequence) :
      Reached V blockSize numGpuBlocks numCpuBlocks watermarkBlocks numLookaheadSlots manager
        tokens →
      manager.Located .gpu seq.seqId → tokens seq.seqId <+: seq.data.getTokenIds →
      manager.appendSlots seq numLookaheadSlots = .ok (cows, manager') →
      Reached V blockSize numGpuBlocks numCpuBlocks watermarkBlocks numLookaheadSlots manager'
        (Function.update tokens seq.seqId seq.data.getTokenIds)
  | free {manager manager' : BlockSpaceManagerV2} {tokens : Nat → List Nat} (key : Nat) :
      Reached V blockSize numGpuBlocks numCpuBlocks watermarkBlocks numLookaheadSlots manager
        tokens →
      manager.Located .gpu key → manager.free key = .ok manager' →
      Reached V blockSize numGpuBlocks numCpuBlocks watermarkBlocks numLookaheadSlots manager'
        tokens
  | fork {manager manager' : BlockSpaceManagerV2} {tokens : Nat → List Nat}
      (parent child : Nat) :
      Reached V blockSize numGpuBlocks numCpuBlocks watermarkBlocks numLookaheadSlots manager
        tokens →
      manager.Located .gpu parent → manager.blockTables.get? child = none →
      manager.fork parent child = .ok manager' →
      Reached V blockSize numGpuBlocks numCpuBlocks watermarkBlocks numLookaheadSlots manager'
        (Function.update tokens child (tokens parent))
  | swapIn {manager manager' : BlockSpaceManagerV2} {tokens : Nat → List Nat}
      {moves : List (Nat × Nat)} (group : SequenceGroup V) :
      Reached V blockSize numGpuBlocks numCpuBlocks watermarkBlocks numLookaheadSlots manager
        tokens →
      Movable manager .gpu (group.getSeqs .swapped) →
      manager.swapIn group = .ok (moves, manager') →
      Reached V blockSize numGpuBlocks numCpuBlocks watermarkBlocks numLookaheadSlots manager'
        tokens
  | swapOut {manager manager' : BlockSpaceManagerV2} {tokens : Nat → List Nat}
      {moves : List (Nat × Nat)} (group : SequenceGroup V) :
      Reached V blockSize numGpuBlocks numCpuBlocks watermarkBlocks numLookaheadSlots manager
        tokens →
      Movable manager .cpu (group.getSeqs .running) →
      manager.swapOut group = .ok (moves, manager') →
      Reached V blockSize numGpuBlocks numCpuBlocks watermarkBlocks numLookaheadSlots manager'
        tokens

end Runs

section Invariant

variable {V : Type} {manager manager' : BlockSpaceManagerV2} {lookahead : Nat}
  {tokens : Nat → List Nat}

/-- The books are right, and each table holds the tokens of its sequence. -/
structure Consistent (manager : BlockSpaceManagerV2) (lookahead : Nat)
    (tokens : Nat → List Nat) : Prop where
  accounted : manager.Accounted
  tight : manager.Tight lookahead
  holds : ∀ key table, manager.blockTables.get? key = some table →
    table.getAllTokenIds = tokens key

namespace Consistent

theorem has (given : Consistent manager lookahead tokens) {key : Nat} {table : BlockTable}
    (found : manager.blockTables.get? key = some table) :
    ∃ device, table.LiesOn device manager.blockAllocator manager.blockSize (tokens key) := by
  obtain ⟨device, lies⟩ := given.accounted.tables key table found
  rw [given.holds key table found] at lies
  exact ⟨device, lies⟩

theorem started (given : Consistent manager lookahead tokens) {key : Nat} {table : BlockTable}
    (found : manager.blockTables.get? key = some table) {device : Device}
    (located : manager.Located device key) :
    table.LiesOn device manager.blockAllocator manager.blockSize (tokens key) := by
  have lies := given.accounted.lies found (located table found)
  rwa [given.holds key table found] at lies

theorem set (given : Consistent manager lookahead tokens) {key : Nat} {table : BlockTable}
    (sets : Sets manager manager' key table)
    (few : table.physicalBlockIds.length ≤ cdiv (table.numFullSlots + lookahead) manager.blockSize)
    {tokens' : Nat → List Nat} (same : ∀ other, other ≠ key → tokens' other = tokens other)
    (holds : table.getAllTokenIds = tokens' key) : Consistent manager' lookahead tokens' := by
  refine ⟨sets.accounted, sets.tight given.tight few, fun other held found => ?_⟩
  by_cases equal : other = key
  · rw [equal, sets.tables, get?_set_self] at found
    rw [equal, ← Option.some.inj found, holds]
  · rw [sets.tables, get?_set_other _ equal] at found
    rw [same other equal]
    exact given.holds other held found

theorem appendSlots (given : Consistent manager lookahead tokens) {seq : Sequence}
    {cows : List (BlockId × BlockId)} (located : manager.Located .gpu seq.seqId)
    (extends' : tokens seq.seqId <+: seq.data.getTokenIds)
    (run : manager.appendSlots seq lookahead = .ok (cows, manager')) :
    Consistent manager' lookahead
      (Function.update tokens seq.seqId seq.data.getTokenIds) := by
  obtain ⟨table, place, _⟩ := ok_of_bind run
  have found := found_of_tableOf place
  have lies := given.started found located
  obtain ⟨more, whole⟩ := extends'
  have unseen : seq.data.getTokenIds.drop (tokens seq.seqId).length = more := by
    rw [← whole, List.drop_left]
  have outcome := given.accounted.appendSlots_outcome found lies (Nat.le_refl _)
    (alone_behind table _) lookahead
  rw [unseen] at outcome
  rcases outcome with ⟨_, after, table', run', sets, _, length, lies', _⟩ | ⟨run', _⟩
  · obtain ⟨_, rfl⟩ := Prod.mk.inj (Except.ok.inj (run'.symm.trans run))
    refine given.set sets ?_ (fun other different => Function.update_of_ne different _ _) ?_
    · have before := given.tight seq.seqId table found
      have grows : cdiv (table.numFullSlots + lookahead) manager.blockSize ≤
          cdiv ((tokens seq.seqId).length + more.length + lookahead) manager.blockSize := by
        refine cdiv_mono given.accounted.positive ?_
        rw [lies.counted]
        omega
      rw [length, lies'.counted, List.length_append]
      omega
    · rw [Function.update_self, lies'.getAllTokenIds_eq, whole]
  · rw [run'] at run
    cases run

theorem swapSequences (seqs : List Sequence) {source target : Device}
    (different : target ≠ source) (given : Consistent manager lookahead tokens)
    (once : (seqs.map Sequence.seqId).Nodup)
    (located : ∀ seq ∈ seqs, manager.Located source seq.seqId) {moves : List (Nat × Nat)}
    (run : BlockSpaceManagerV2.swapSequences manager source target seqs = .ok (moves, manager')) :
    Consistent manager' lookahead tokens := by
  induction seqs generalizing manager moves with
  | nil =>
      obtain ⟨_, rfl⟩ := Prod.mk.inj (Except.ok.inj run)
      exact given
  | cons seq rest ih =>
      rw [List.map_cons, List.nodup_cons] at once
      obtain ⟨⟨told, middle⟩, first, run⟩ := ok_of_bind run
      obtain ⟨⟨others, final⟩, later, run⟩ := ok_of_bind run
      obtain ⟨_, rfl⟩ := Prod.mk.inj (Except.ok.inj run)
      obtain ⟨table, place, _⟩ := ok_of_bind first
      have found := found_of_tableOf place
      have lies := given.started found (located seq List.mem_cons_self)
      rcases given.accounted.swapSequence_outcome different found lies with
        ⟨_, middle', table', run', sets, _, _, length, lies', _⟩ | ⟨run', _⟩
      · obtain ⟨_, rfl⟩ := Prod.mk.inj (Except.ok.inj (run'.symm.trans first))
        have few : table'.physicalBlockIds.length ≤
            cdiv (table'.numFullSlots + lookahead) manager.blockSize := by
          rw [length, lies'.counted, ← lies.counted]
          exact given.tight seq.seqId table found
        refine ih (given.set sets few (fun _ _ => rfl) lies'.getAllTokenIds_eq) once.2 ?_ later
        intro other member held found' id listed
        have apart : other.seqId ≠ seq.seqId := fun same =>
          once.1 (same ▸ List.mem_map_of_mem member)
        rw [sets.tables, get?_set_other _ apart] at found'
        rw [sets.all]
        exact located other (List.mem_cons_of_mem _ member) held found' id listed
      · rw [run'] at first
        cases first

theorem allocate (given : Consistent manager lookahead tokens) {group : SequenceGroup V}
    {seq : Sequence} {rest : List Sequence} (waiting : group.getSeqs .waiting = seq :: rest)
    (prompt : seq.data.getTokenIds ≠ []) (once : ((seq :: rest).map Sequence.seqId).Nodup)
    (run : manager.allocate group = .ok manager') :
    Consistent manager' lookahead fun key =>
      if key ∈ (seq :: rest).map Sequence.seqId then seq.data.getTokenIds else tokens key := by
  have absent : ∀ other ∈ seq :: rest, manager.blockTables.get? other.seqId = none := by
    intro other member
    rw [BlockSpaceManagerV2.allocate, waiting] at run
    by_contra present
    have some : (seq :: rest).any (fun seq =>
        (manager.blockTables.get? seq.seqId).isSome) = true :=
      List.any_eq_true.mpr ⟨other, member, Option.isSome_iff_ne_none.mpr present⟩
    simp only [some, if_true] at run
    cases run
  rcases given.accounted.allocate_outcome waiting prompt once absent with
    ⟨after, table, run', accounted, tables, lies, _, few, _, _, size, _⟩ | ⟨run', _⟩
  · obtain rfl := Except.ok.inj (run'.symm.trans run)
    refine ⟨accounted, ?_, ?_⟩
    · intro key held found
      rw [tables, get?_setTables] at found
      rw [size]
      split at found
      · rw [← Option.some.inj found, lies.counted]
        exact few.trans (cdiv_mono given.accounted.positive (Nat.le_add_right _ _))
      · exact given.tight key held found
    · intro key held found
      rw [tables, get?_setTables] at found
      split at found
      · rename_i member
        rw [if_pos member, ← Option.some.inj found]
        exact lies.getAllTokenIds_eq
      · rename_i strange
        rw [if_neg strange]
        exact given.holds key held found
  · rw [run'] at run
    cases run

theorem free (given : Consistent manager lookahead tokens) {key : Nat}
    (located : manager.Located .gpu key) (run : manager.free key = .ok manager') :
    Consistent manager' lookahead tokens := by
  obtain ⟨after, run', accounted, entries, _, size, _⟩ := given.accounted.free_eq located
  obtain rfl := Except.ok.inj (run'.symm.trans run)
  have before : ∀ other held, after.blockTables.get? other = some held →
      manager.blockTables.get? other = some held := by
    intro other held found
    rw [Dict.eq_of_entries entries, Dict.get?_erase] at found
    split at found
    · cases found
    · exact found
  refine ⟨accounted, fun other held found => ?_, fun other held found =>
    given.holds other held (before other held found)⟩
  rw [size]
  exact given.tight other held (before other held found)

theorem fork (given : Consistent manager lookahead tokens) {parent child : Nat}
    (located : manager.Located .gpu parent) (absent : manager.blockTables.get? child = none)
    (run : manager.fork parent child = .ok manager') :
    Consistent manager' lookahead (Function.update tokens child (tokens parent)) := by
  cases found : manager.blockTables.get? parent with
  | none =>
      rw [BlockSpaceManagerV2.fork, found] at run
      obtain rfl := Except.ok.inj run
      refine ⟨given.accounted, given.tight, fun other held found' => ?_⟩
      have different : other ≠ child := by
        intro same
        rw [same, absent] at found'
        cases found'
      rw [Function.update_of_ne different]
      exact given.holds other held found'
  | some table =>
      rw [BlockSpaceManagerV2.fork, found] at run
      obtain ⟨after, run', accounted, tables, all, _, size, watermark⟩ :=
        given.accounted.forkTable_eq (given.started found located)
          (fun id member => mem_references.mpr ⟨parent, table, found, member⟩) absent
      obtain rfl := Except.ok.inj (run'.symm.trans run)
      refine given.set ⟨accounted, tables, all, size, watermark⟩ (given.tight parent table found)
        (fun other different => Function.update_of_ne different _ _) ?_
      rw [Function.update_self]
      exact given.holds parent table found

end Consistent

end Invariant

section Example

def promptSequence (seqId : Nat) (tokens : List Nat) (status : SequenceStatus) : Sequence where
  seqId := seqId
  data := ⟨tokens, [], 0, .prefill⟩
  outputText := []
  status := status
  stopReason := none
  eosTokenId := none

def promptGroup (seqs : List Sequence) : SequenceGroup Unit := ⟨seqs, none, none, none⟩

def promptAllocated : BlockSpaceManagerV2 :=
  match (BlockSpaceManagerV2.init 2 4 3 0).allocate
      (promptGroup [promptSequence 7 [1, 2, 3] .waiting]) with
  | .ok manager => manager
  | .error _ => .init 2 4 3 0

def promptForked : BlockSpaceManagerV2 :=
  match promptAllocated.fork 7 8 with
  | .ok manager => manager
  | .error _ => promptAllocated

def promptTokens : Nat → List Nat :=
  Function.update (fun key => if key ∈ [7] then [1, 2, 3] else []) 8 [1, 2, 3]

theorem located_promptAllocated : promptAllocated.Located .gpu 7 := by
  intro table found
  obtain rfl := Option.some.inj found
  decide

theorem reached_promptForked : Reached Unit 2 4 3 0 0 promptForked promptTokens :=
  .fork 7 8 (.allocate (promptGroup [promptSequence 7 [1, 2, 3] .waiting])
    (promptSequence 7 [1, 2, 3] .waiting) [] .start rfl (by decide) (by decide) rfl)
    located_promptAllocated rfl rfl

end Example

section Together

variable {V : Type}
  {blockSize numGpuBlocks numCpuBlocks watermarkBlocks numLookaheadSlots : Nat}
  {manager : BlockSpaceManagerV2} {tokens : Nat → List Nat}

theorem Reached.consistent (positive : 0 < blockSize)
    (reached : Reached V blockSize numGpuBlocks numCpuBlocks watermarkBlocks numLookaheadSlots
      manager tokens) : Consistent manager numLookaheadSlots tokens := by
  induction reached with
  | start =>
      refine ⟨accounted_init _ _ _ _ positive, ?_, ?_⟩
      · intro key table found
        cases found
      · intro key table found
        cases found
  | allocate group seq rest _ waiting prompt once run ih =>
      exact ih.allocate waiting prompt once run
  | appendSlots seq _ located extends' run ih => exact ih.appendSlots located extends' run
  | free key _ located run ih => exact ih.free located run
  | fork parent child _ located absent run ih => exact ih.fork located absent run
  | swapIn group _ movable run ih =>
      exact ih.swapSequences _ (Device.opposite_ne .gpu) movable.once movable.located run
  | swapOut group _ movable run ih =>
      exact ih.swapSequences _ (Device.opposite_ne .cpu) movable.once movable.located run

theorem count_flatMap_once (entries : List (Nat × BlockTable))
    (once : ∀ entry ∈ entries, entry.2.physicalBlockIds.Nodup) (id : BlockId) :
    (entries.flatMap fun entry => entry.2.physicalBlockIds).count id =
      (entries.map Prod.snd).countP fun table => id ∈ table.physicalBlockIds := by
  induction entries with
  | nil => rfl
  | cons entry rest ih =>
      rw [List.flatMap_cons, List.count_append,
        ih fun other member => once other (List.mem_cons_of_mem _ member), List.map_cons,
        List.countP_cons, (once entry List.mem_cons_self).count, Nat.add_comm]
      simp only [decide_eq_true_eq]

/-- In every state that the manager reaches, a block's count is the number of tables that it
stands in, and the free blocks are those that stand in none, each listed once. -/
theorem Reached.counted (positive : 0 < blockSize)
    (reached : Reached V blockSize numGpuBlocks numCpuBlocks watermarkBlocks numLookaheadSlots
      manager tokens) (device : Device) :
    (manager.blockAllocator.on device).freeBlockIndices.Nodup ∧
      ∀ id ∈ (manager.blockAllocator.on device).allBlockIndices,
        (manager.blockAllocator.on device).refcounter.refcounts.get? id =
            some ((manager.blockTables.entries.map Prod.snd).countP
              fun table => id ∈ table.physicalBlockIds) ∧
          (id ∈ (manager.blockAllocator.on device).freeBlockIndices ↔
            ∀ key table, manager.blockTables.get? key = some table →
              id ∉ table.physicalBlockIds) := by
  have given := reached.consistent positive
  have books := given.accounted.books device
  refine ⟨books.once, fun id within => ⟨?_, ?_⟩⟩
  · rw [books.get? within, references, Dict.gather, Multiset.coe_count, count_flatMap_once]
    intro entry member
    obtain ⟨_, lies⟩ := given.has ((Dict.get?_eq_some_iff _ entry.1 entry.2).mpr member)
    exact lies.once
  · rw [books.mem_free, mem_references, and_iff_right within]
    constructor
    · intro unused key table found member
      exact unused ⟨key, table, found, member⟩
    · intro unused held
      obtain ⟨key, table, found, member⟩ := held
      exact unused key table found member

theorem counted_promptForked :
    (promptForked.blockAllocator.on .gpu).refcounter.refcounts.get? 0 = some 2 :=
  ((Reached.counted (by decide) reached_promptForked .gpu).2 0 (by decide)).1.trans rfl

/-- In every state that the manager reaches, the table of a sequence stands on one device,
lists no block twice, and its blocks hold the tokens of the sequence in order. -/
theorem Reached.contents (positive : 0 < blockSize)
    (reached : Reached V blockSize numGpuBlocks numCpuBlocks watermarkBlocks numLookaheadSlots
      manager tokens) {key : Nat} {table : BlockTable}
    (found : manager.blockTables.get? key = some table) :
    table.physicalBlockIds.Nodup ∧
      (∃ device, ∀ id ∈ table.physicalBlockIds,
        id ∈ (manager.blockAllocator.on device).allBlockIndices) ∧
      table.getAllTokenIds = tokens key ∧
      ∀ index block, table.blocks.blocks[index]? = some block →
        block.tokenIds = ((tokens key).drop (index * manager.blockSize)).take
          manager.blockSize := by
  obtain ⟨device, lies⟩ := (reached.consistent positive).has found
  exact ⟨lies.once, ⟨device, lies.within⟩, lies.getAllTokenIds_eq, lies.holds.cut⟩

theorem contents_promptForked :
    (promptForked.blockTables.get? 8).map BlockTable.getAllTokenIds = some [1, 2, 3] := by
  obtain ⟨table, found⟩ := Option.isSome_iff_exists.mp
    (rfl : (promptForked.blockTables.get? 8).isSome = true)
  rw [found]
  exact congrArg some (Reached.contents (by decide) reached_promptForked found).2.2.1

/-- In every state that the manager reaches, the blocks of a table have objects for themselves:
they are the GPU's, and none of them is another block's as well or free to be used again. -/
theorem Reached.objects_own (positive : 0 < blockSize)
    (reached : Reached V blockSize numGpuBlocks numCpuBlocks watermarkBlocks numLookaheadSlots
      manager tokens) {key : Nat} {table : BlockTable}
    (found : manager.blockTables.get? key = some table) :
    ∃ objects, manager.blockObjects.tables.get? key = some objects ∧
      objects.length = table.blocks.blocks.length ∧ objects.Nodup ∧
      ∀ object ∈ objects, object.owner = .gpu ∧
        object.poolId ∉ manager.blockObjects.gpu.freeIds ∧
        ∀ other, other ≠ key → object ∉ manager.blockObjects.ofTable other :=
  (reached.consistent positive).accounted.owned.apart found

theorem objects_promptForked : ∃ objects,
    promptForked.blockObjects.tables.get? 8 = some objects ∧ objects.length = 2 ∧
      ∀ object ∈ objects, object ∉ promptForked.blockObjects.ofTable 7 := by
  obtain ⟨table, found⟩ := Option.isSome_iff_exists.mp
    (rfl : (promptForked.blockTables.get? 8).isSome = true)
  obtain ⟨objects, held, length, _, apart⟩ :=
    Reached.objects_own (by decide) reached_promptForked found
  refine ⟨objects, held, ?_, fun object member => (apart object member).2.2 7 (by decide)⟩
  obtain rfl := Option.some.inj found
  exact length

/-- A sequence that has a table on the device, and that tokens have come to since then. -/
def Grown (manager : BlockSpaceManagerV2) (tokens : Nat → List Nat) (device : Device)
    (seq : Sequence) : Prop :=
  (manager.blockTables.get? seq.seqId).isSome ∧ manager.Located device seq.seqId ∧
    tokens seq.seqId <+: seq.data.getTokenIds

theorem Consistent.started_of_grown {lookahead : Nat}
    (given : Consistent manager lookahead tokens) {device : Device} {seq : Sequence}
    (grown : Grown manager tokens device seq) : manager.Started device seq := by
  obtain ⟨present, located, before⟩ := grown
  obtain ⟨table, found⟩ := Option.isSome_iff_exists.mp present
  exact ⟨tokens seq.seqId, ⟨table, found, given.started found located⟩, before⟩

/-- When the manager says that a running group can be appended to, there are blocks for all
its sequences, although the check counts before any of them is taken, and a block that is
shared within the group may have to be copied for each of them. -/
theorem Reached.append_succeeds (positive : 0 < blockSize)
    (reached : Reached V blockSize numGpuBlocks numCpuBlocks watermarkBlocks numLookaheadSlots
      manager tokens) (group : SequenceGroup V)
    (once : ((group.getSeqs .running).map Sequence.seqId).Nodup)
    (grown : ∀ seq ∈ group.getSeqs .running, Grown manager tokens .gpu seq)
    (check : manager.canAppendSlots group numLookaheadSlots = .ok true) :
    ∃ cows after, manager.appendAll numLookaheadSlots (group.getSeqs .running) =
        .ok (cows, after) ∧
      ∀ seq ∈ group.getSeqs .running, after.Has .gpu seq.seqId seq.data.getTokenIds := by
  have given := reached.consistent positive
  obtain ⟨cows, after, run, _, _, has⟩ := given.accounted.append_checked given.tight once
    (fun seq member => given.started_of_grown (grown seq member)) check
  exact ⟨cows, after, run, has⟩

theorem grown_promptForked {seqId : Nat} (either : seqId = 7 ∨ seqId = 8) (token : Nat) :
    Grown promptForked promptTokens .gpu (promptSequence seqId [1, 2, 3, token] .running) := by
  rcases either with rfl | rfl
  · refine ⟨rfl, ?_, ⟨[token], rfl⟩⟩
    intro table found
    obtain rfl := Option.some.inj found
    decide
  · refine ⟨rfl, ?_, ⟨[token], rfl⟩⟩
    intro table found
    obtain rfl := Option.some.inj found
    decide

/-- Both sequences go on, and one of them has to have the shared block copied. -/
theorem append_promptForked : ∃ cows after, promptForked.appendAll 0
    [promptSequence 7 [1, 2, 3, 4] .running, promptSequence 8 [1, 2, 3, 5] .running] =
      .ok (cows, after) ∧ after.Has .gpu 8 [1, 2, 3, 5] := by
  have grown : ∀ seq ∈ (promptGroup [promptSequence 7 [1, 2, 3, 4] .running,
      promptSequence 8 [1, 2, 3, 5] .running]).getSeqs .running,
        Grown promptForked promptTokens .gpu seq := by
    intro seq member
    rcases List.mem_cons.mp member with rfl | other
    · exact grown_promptForked (.inl rfl) 4
    · rw [List.mem_singleton.mp other]
      exact grown_promptForked (.inr rfl) 5
  obtain ⟨cows, after, run, has⟩ :=
    Reached.append_succeeds (by decide) reached_promptForked _ (by decide) grown rfl
  exact ⟨cows, after, run, has (promptSequence 8 [1, 2, 3, 5] .running) (by decide)⟩

end Together

end ScalarLM.Cache
