import ScalarLM.Cache.ManagerSteps

/-! Several sequences are appended to or moved one after the other, and whole runs of the
manager. -/

namespace ScalarLM.Cache

open Engine Paging BlockSpaceManagerV2

section Tables

variable {tables : Dict Nat BlockTable} {key : Nat} {table : BlockTable}

theorem mem_references_erase {id : BlockId} :
    id ∈ references (tables.erase key) ↔
      ∃ other held, other ≠ key ∧ tables.get? other = some held ∧ id ∈ held.physicalBlockIds := by
  rw [mem_references]
  refine exists_congr fun other => exists_congr fun held => ?_
  rw [Dict.get?_erase]
  by_cases same : other = key
  · simp [same]
  · simp [same]

theorem get?_set_self (tables : Dict Nat BlockTable) :
    (tables.set key table).get? key = some table := by
  rw [Dict.get?_set, if_pos rfl]

theorem get?_set_other (tables : Dict Nat BlockTable) {other : Nat} (different : other ≠ key) :
    (tables.set key table).get? other = tables.get? other := by
  rw [Dict.get?_set, if_neg different]

/-- After a table was set, another sequence shares its blocks with the table or with the
others as before. -/
theorem shared_set {other : Nat} {id : BlockId}
    (shared : id ∈ references ((tables.set key table).erase other)) :
    id ∈ table.physicalBlockIds ∨ id ∈ references (tables.erase other) := by
  obtain ⟨holder, held, apart, found, member⟩ := mem_references_erase.mp shared
  by_cases here : holder = key
  · rw [here, get?_set_self] at found
    exact .inl (Option.some.inj found ▸ member)
  · rw [get?_set_other tables here] at found
    exact .inr (mem_references_erase.mpr ⟨holder, held, apart, found, member⟩)

end Tables

def Device.opposite : Device → Device
  | .cpu => .gpu
  | .gpu => .cpu

theorem Device.opposite_ne (device : Device) : device ≠ device.opposite := by
  cases device <;> decide

namespace BlockSpaceManagerV2

section Changes

/-- The sequence has a table on the device, with these tokens. -/
def Has (manager : BlockSpaceManagerV2) (device : Device) (key : Nat)
    (tokens : List Nat) : Prop :=
  ∃ table, manager.blockTables.get? key = some table ∧
    table.LiesOn device manager.blockAllocator manager.blockSize tokens

structure Movable (manager : BlockSpaceManagerV2) (device : Device) (seqs : List Sequence) :
    Prop where
  once : (seqs.map Sequence.seqId).Nodup
  located : ∀ seq ∈ seqs, manager.Located device.opposite seq.seqId

/-- No table of the others changed, and the books are right. -/
structure Changes (before after : BlockSpaceManagerV2) (keys : List Nat) : Prop where
  accounted : after.Accounted
  others : ∀ key, key ∉ keys → after.blockTables.get? key = before.blockTables.get? key
  all : ∀ device, (after.blockAllocator.on device).allBlockIndices =
    (before.blockAllocator.on device).allBlockIndices
  size : after.blockSize = before.blockSize
  watermark : after.watermarkBlocks = before.watermarkBlocks

variable {manager middle after : BlockSpaceManagerV2} {keys more : List Nat} {key : Nat}

theorem Changes.refl (accounted : manager.Accounted) (keys : List Nat) :
    Changes manager manager keys :=
  ⟨accounted, fun _ _ => rfl, fun _ => rfl, rfl, rfl⟩

theorem Changes.trans (first : Changes manager middle keys) (second : Changes middle after more) :
    Changes manager after (keys ++ more) where
  accounted := second.accounted
  others key absent := by
    rw [List.mem_append, not_or] at absent
    exact (second.others key absent.2).trans (first.others key absent.1)
  all device := (second.all device).trans (first.all device)
  size := second.size.trans first.size
  watermark := second.watermark.trans first.watermark

theorem Sets.changes {table : BlockTable} (sets : Sets manager after key table) :
    Changes manager after [key] where
  accounted := sets.accounted
  others other absent := by
    have different : other ≠ key := fun same => absent (same ▸ List.mem_singleton.mpr rfl)
    rw [sets.tables, get?_set_other _ different]
  all := sets.all
  size := sets.size
  watermark := sets.watermark

theorem Changes.located (changes : Changes manager after keys) {device : Device}
    (located : manager.Located device key)
    (gone : ∀ other ∈ keys, after.blockTables.get? other = none) : after.Located device key := by
  intro table found id member
  have absent : key ∉ keys := by
    intro listed
    rw [gone key listed] at found
    cases found
  rw [changes.all]
  rw [changes.others key absent] at found
  exact located table found id member

theorem Changes.has (changes : Changes manager after keys) (absent : key ∉ keys) {device : Device}
    {tokens : List Nat} (has : manager.Has device key tokens) : after.Has device key tokens := by
  obtain ⟨table, found, lies⟩ := has
  refine ⟨table, (changes.others key absent).trans found, ?_⟩
  rw [changes.size]
  exact lies.congr (changes.all device)

theorem Sets.has {table : BlockTable} (sets : Sets manager after key table) {device : Device}
    {tokens : List Nat}
    (lies : table.LiesOn device after.blockAllocator manager.blockSize tokens) :
    after.Has device key tokens :=
  ⟨table, by rw [sets.tables, get?_set_self], by rw [sets.size]; exact lies⟩

/-- No table has more blocks than its tokens and the lookahead slots behind them need. -/
def Tight (manager : BlockSpaceManagerV2) (lookahead : Nat) : Prop :=
  ∀ key table, manager.blockTables.get? key = some table →
    table.physicalBlockIds.length ≤ cdiv (table.numFullSlots + lookahead) manager.blockSize

theorem Sets.tight {table : BlockTable} {lookahead : Nat} (sets : Sets manager after key table)
    (tight : manager.Tight lookahead)
    (few : table.physicalBlockIds.length ≤
      cdiv (table.numFullSlots + lookahead) manager.blockSize) : after.Tight lookahead := by
  intro other held found
  rw [sets.size]
  by_cases same : other = key
  · rw [same, sets.tables, get?_set_self] at found
    rw [← Option.some.inj found]
    exact few
  · rw [sets.tables, get?_set_other _ same] at found
    exact tight other held found

theorem Accounted.free_changes (accounted : manager.Accounted) {key : Nat}
    (located : manager.Located .gpu key) {lookahead : Nat} (tight : manager.Tight lookahead) :
    ∃ after, manager.free key = .ok after ∧ Changes manager after [key] ∧
      after.Tight lookahead ∧ after.blockTables.get? key = none := by
  obtain ⟨after, run, accounted', entries, all, size, watermark⟩ := accounted.free_eq located
  have tables : ∀ other, after.blockTables.get? other =
      if other = key then none else manager.blockTables.get? other := by
    rw [Dict.eq_of_entries entries]
    exact fun other => Dict.get?_erase _ _ _
  refine ⟨after, run, ⟨accounted', ?_, all, size, watermark⟩, ?_, ?_⟩
  · intro other absent
    rw [tables, if_neg fun same => absent (List.mem_singleton.mpr same)]
  · intro other held found
    rw [tables] at found
    split at found
    · cases found
    · rw [size]
      exact tight other held found
  · rw [tables, if_pos rfl]

end Changes

section Appends

variable {manager : BlockSpaceManagerV2}

theorem found_of_tableOf {key : Nat} {table : BlockTable}
    (run : manager.tableOf key = .ok table) : manager.blockTables.get? key = some table := by
  rw [tableOf] at run
  split at run
  · cases run
  · rename_i found
    rw [found, Except.ok.inj run]

def appendAll (manager : BlockSpaceManagerV2) (numLookaheadSlots : Nat) :
    List Sequence → Except CacheError (List (BlockId × BlockId) × BlockSpaceManagerV2)
  | [] => .ok ([], manager)
  | seq :: rest => do
    let (cows, manager) ← manager.appendSlots seq numLookaheadSlots
    let (others, manager) ← appendAll manager numLookaheadSlots rest
    return (cows ++ others, manager)

/-- The blocks that a sequence needs for its next slots, when no block of its table from
`old` on is shared. -/
def required (manager : BlockSpaceManagerV2) (lookahead : Nat) (seq : Sequence) (old : Nat) : Nat :=
  match manager.blockTables.get? seq.seqId with
  | none => 0
  | some table =>
    let slots := table.numFullSlots + (table.getUnseenTokenIds seq.data.getTokenIds).length +
      lookahead
    cdiv slots manager.blockSize - table.physicalBlockIds.length +
      (min old (cdiv slots manager.blockSize) - table.numFullSlots / manager.blockSize)

def Unshared (manager : BlockSpaceManagerV2) (key old : Nat) : Prop :=
  ∀ table, manager.blockTables.get? key = some table → old ≤ table.physicalBlockIds.length ∧
    ∀ place id, old ≤ place → table.physicalBlockIds[place]? = some id →
      id ∉ references (manager.blockTables.erase key)

theorem Changes.required_eq {after : BlockSpaceManagerV2} {keys : List Nat}
    (changes : Changes manager after keys) (lookahead : Nat) {seq : Sequence}
    (absent : seq.seqId ∉ keys) (old : Nat) :
    after.required lookahead seq old = manager.required lookahead seq old := by
  rw [required, required, changes.others seq.seqId absent, changes.size]

theorem Unshared.set {after : BlockSpaceManagerV2} {key other old : Nat}
    {table changed : BlockTable} (unshared : manager.Unshared other old) (different : other ≠ key)
    (found : manager.blockTables.get? key = some table)
    (tables : after.blockTables = manager.blockTables.set key changed)
    (kept : ∀ id ∈ changed.physicalBlockIds,
      id ∈ references (manager.blockTables.erase key) → id ∈ table.physicalBlockIds) :
    after.Unshared other old := by
  intro held found'
  rw [tables, get?_set_other _ different] at found'
  obtain ⟨early, alone⟩ := unshared held found'
  refine ⟨early, fun place id late there shared => ?_⟩
  rw [tables] at shared
  rcases shared_set shared with new | before
  · have used : id ∈ references (manager.blockTables.erase key) :=
      mem_references_erase.mpr ⟨other, held, different, found', List.mem_of_getElem? there⟩
    exact alone place id late there
      (mem_references_erase.mpr ⟨key, table, different.symm, found, kept id new used⟩)
  · exact alone place id late there before

theorem Has.located {device : Device} {key : Nat} {tokens : List Nat}
    (has : manager.Has device key tokens) : manager.Located device key := by
  obtain ⟨table, found, lies⟩ := has
  intro held found'
  rw [found] at found'
  rw [← Option.some.inj found']
  exact lies.within

theorem Accounted.appendSlots_sets (accounted : manager.Accounted) {seq : Sequence}
    (located : manager.Located .gpu seq.seqId) {lookahead : Nat}
    {cows : List (BlockId × BlockId)} {after : BlockSpaceManagerV2}
    (run : manager.appendSlots seq lookahead = .ok (cows, after)) :
    ∃ table, Sets manager after seq.seqId table := by
  obtain ⟨table, place, _⟩ := ok_of_bind run
  have found := found_of_tableOf place
  rcases accounted.appendSlots_outcome found (accounted.lies found (located table found))
    (Nat.le_refl _) (alone_behind table _) lookahead with
    ⟨_, after', table', run', sets, _⟩ | ⟨run', _⟩
  · obtain ⟨_, rfl⟩ := Prod.mk.inj (Except.ok.inj (run'.symm.trans run))
    exact ⟨table', sets⟩
  · rw [run'] at run
    cases run

theorem Accounted.appendAll_outcome (seqs : List Sequence) (accounted : manager.Accounted)
    {lookahead : Nat} (tight : manager.Tight lookahead)
    (once : (seqs.map Sequence.seqId).Nodup)
    (held : ∀ seq ∈ seqs, ∃ tokens, manager.Has .gpu seq.seqId tokens ∧
      tokens <+: seq.data.getTokenIds)
    (old : Nat → Nat) (unshared : ∀ seq ∈ seqs, manager.Unshared seq.seqId (old seq.seqId))
    (room : (seqs.map fun seq => manager.required lookahead seq (old seq.seqId)).sum ≤
      manager.blockAllocator.gpu.freeBlockIndices.length) :
    ∃ cows after, manager.appendAll lookahead seqs = .ok (cows, after) ∧
      Changes manager after (seqs.map Sequence.seqId) ∧ after.Tight lookahead ∧
      ∀ seq ∈ seqs, after.Has .gpu seq.seqId seq.data.getTokenIds := by
  induction seqs generalizing manager with
  | nil =>
      exact ⟨[], manager, rfl, .refl accounted _, tight,
        fun seq absent => absurd absent List.not_mem_nil⟩
  | cons seq rest ih =>
      rw [List.map_cons, List.nodup_cons] at once
      obtain ⟨tokens, has, extends'⟩ := held seq List.mem_cons_self
      obtain ⟨table, found, lies⟩ := has
      obtain ⟨early, alone⟩ := unshared seq List.mem_cons_self table found
      obtain ⟨more, whole⟩ := extends'
      have unseen : seq.data.getTokenIds.drop tokens.length = more := by
        rw [← whole, List.drop_left]
      have needed : manager.required lookahead seq (old seq.seqId) =
          cdiv (tokens.length + more.length + lookahead) manager.blockSize -
              table.physicalBlockIds.length +
            (min (old seq.seqId) (cdiv (tokens.length + more.length + lookahead)
              manager.blockSize) - tokens.length / manager.blockSize) := by
        rw [required, found]
        simp only [BlockTable.getUnseenTokenIds, lies.counted, unseen]
      rw [List.map_cons, List.sum_cons, needed] at room
      have outcome := accounted.appendSlots_outcome found lies early alone lookahead
      rw [unseen] at outcome
      rcases outcome with
        ⟨cows, middle, table', run, sets, edits, length, lies', free, _⟩ | ⟨_, few⟩
      · have apart : ∀ other ∈ rest, other.seqId ≠ seq.seqId := fun other member same =>
          once.1 (same ▸ List.mem_map_of_mem member)
        have spared : ∀ other ∈ rest, other.seqId ∉ [seq.seqId] := fun other member listed =>
          apart other member (List.mem_singleton.mp listed)
        have tight' : middle.Tight lookahead := by
          refine sets.tight tight ?_
          have before := tight seq.seqId table found
          have grows : cdiv (table.numFullSlots + lookahead) manager.blockSize ≤
              cdiv (tokens.length + more.length + lookahead) manager.blockSize := by
            refine cdiv_mono accounted.positive ?_
            rw [lies.counted]
            omega
          rw [length, lies'.counted, List.length_append]
          omega
        obtain ⟨others, after, run', changes, tight'', has'⟩ := ih sets.accounted tight' once.2
          (by
            intro other member
            obtain ⟨tokens', has', extends''⟩ := held other (List.mem_cons_of_mem _ member)
            exact ⟨tokens', sets.changes.has (spared other member) has', extends''⟩)
          (fun other member => (unshared other (List.mem_cons_of_mem _ member)).set
            (apart other member) found sets.tables fun id listed used => by
              obtain ⟨index, there⟩ := List.getElem?_of_mem listed
              exact List.mem_of_getElem? (edits.kept there used))
          (by
            have same : (rest.map fun other => middle.required lookahead other
                (old other.seqId)) = rest.map fun other => manager.required lookahead other
                  (old other.seqId) :=
              List.map_congr_left fun other member =>
                sets.changes.required_eq lookahead (spared other member) _
            rw [same]
            omega)
        refine ⟨cows ++ others, after, ?_, sets.changes.trans changes, tight'', ?_⟩
        · rw [appendAll, run]
          simp only [bind, Except.bind, run', pure, Except.pure]
        · intro other member
          rcases List.mem_cons.mp member with rfl | later
          · refine changes.has once.1 ?_
            rw [← whole]
            exact sets.has lies'
          · exact has' other later
      · omega

end Appends

section Swaps

variable {manager : BlockSpaceManagerV2}

def blocksOf (manager : BlockSpaceManagerV2) (key : Nat) : Nat :=
  match manager.blockTables.get? key with
  | none => 0
  | some table => table.physicalBlockIds.length

theorem Changes.blocksOf_eq {after : BlockSpaceManagerV2} {keys : List Nat} {key : Nat}
    (changes : Changes manager after keys) (absent : key ∉ keys) :
    after.blocksOf key = manager.blocksOf key := by
  rw [blocksOf, blocksOf, changes.others key absent]

/-- When the other device has room for all their blocks, sequences move there, and share them
with nobody any more. -/
theorem Accounted.swapSequences_outcome (seqs : List Sequence) (accounted : manager.Accounted)
    {lookahead : Nat} (tight : manager.Tight lookahead) {source target : Device}
    (different : target ≠ source) (once : (seqs.map Sequence.seqId).Nodup)
    (held : ∀ seq ∈ seqs, ∃ tokens, manager.Has source seq.seqId tokens)
    (room : (seqs.map fun seq => manager.blocksOf seq.seqId).sum ≤
      (manager.blockAllocator.on target).freeBlockIndices.length) :
    ∃ moves after, swapSequences manager source target seqs = .ok (moves, after) ∧
      Changes manager after (seqs.map Sequence.seqId) ∧ after.Tight lookahead ∧
      (∀ seq ∈ seqs, ∀ tokens, manager.Has source seq.seqId tokens →
        after.Has target seq.seqId tokens) ∧
      (∀ seq ∈ seqs, after.Unshared seq.seqId 0 ∧
        after.blocksOf seq.seqId = manager.blocksOf seq.seqId) ∧
      (∀ key old, key ∉ seqs.map Sequence.seqId → manager.Unshared key old →
        after.Unshared key old) ∧
      (manager.blockAllocator.on target).freeBlockIndices.length =
        (after.blockAllocator.on target).freeBlockIndices.length +
          (seqs.map fun seq => manager.blocksOf seq.seqId).sum := by
  induction seqs generalizing manager with
  | nil =>
      exact ⟨[], manager, rfl, .refl accounted _, tight,
        fun seq absent => absurd absent List.not_mem_nil,
        fun seq absent => absurd absent List.not_mem_nil, fun _ _ _ unshared => unshared, rfl⟩
  | cons seq rest ih =>
      rw [List.map_cons, List.nodup_cons] at once
      obtain ⟨tokens, table, found, lies⟩ := held seq List.mem_cons_self
      have size : manager.blocksOf seq.seqId = table.physicalBlockIds.length := by
        rw [blocksOf, found]
      rw [List.map_cons, List.sum_cons, size] at room
      have apart : ∀ other ∈ rest, other.seqId ≠ seq.seqId := fun other member same =>
        once.1 (same ▸ List.mem_map_of_mem member)
      have spared : ∀ other ∈ rest, other.seqId ∉ [seq.seqId] := fun other member listed =>
        apart other member (List.mem_singleton.mp listed)
      rcases accounted.swapSequence_outcome different found lies with
        ⟨told, middle, table', run, sets, _, fresh, length, lies', free⟩ | ⟨_, few⟩
      · have same : (rest.map fun other => middle.blocksOf other.seqId) =
            rest.map fun other => manager.blocksOf other.seqId :=
          List.map_congr_left fun other member => sets.changes.blocksOf_eq (spared other member)
        obtain ⟨moves, after, run', changes, tight', has', alone, others, free'⟩ := ih
          sets.accounted
          (sets.tight tight (by
            rw [length, lies'.counted, ← lies.counted]
            exact tight seq.seqId table found))
          once.2
          (by
            intro other member
            obtain ⟨tokens', has⟩ := held other (List.mem_cons_of_mem _ member)
            exact ⟨tokens', sets.changes.has (spared other member) has⟩)
          (by
            rw [same]
            omega)
        have here : middle.blockTables.get? seq.seqId = some table' := by
          rw [sets.tables, get?_set_self]
        have moved : middle.Unshared seq.seqId 0 := by
          intro held' found'
          rw [here] at found'
          rw [← Option.some.inj found']
          refine ⟨Nat.zero_le _, fun place id _ there shared => ?_⟩
          refine fresh id (List.mem_of_getElem? there) ?_
          obtain ⟨other, its, apart', found'', member⟩ := mem_references_erase.mp shared
          rw [sets.tables, get?_set_other _ apart'] at found''
          exact mem_references_erase.mpr ⟨other, its, apart', found'', member⟩
        refine ⟨physicalMoves manager.blockAllocator source target told ++ moves, after, ?_,
          sets.changes.trans changes, tight', ?_, ?_, ?_, ?_⟩
        · rw [swapSequences, run]
          simp only [bind, Except.bind, run', pure, Except.pure]
        · intro other member tokens' has
          rcases List.mem_cons.mp member with rfl | later
          · obtain ⟨table'', found', lies''⟩ := has
            rw [found] at found'
            have equal : tokens' = tokens := by
              rw [← lies''.getAllTokenIds_eq, ← Option.some.inj found', lies.getAllTokenIds_eq]
            refine changes.has once.1 ?_
            rw [equal]
            exact sets.has lies'
          · exact has' other later tokens' (sets.changes.has (spared other later) has)
        · intro other member
          rcases List.mem_cons.mp member with rfl | later
          · refine ⟨others _ 0 once.1 moved, ?_⟩
            rw [size, blocksOf, changes.others _ once.1, here]
            exact length
          · obtain ⟨unshared, count⟩ := alone other later
            exact ⟨unshared, count.trans (sets.changes.blocksOf_eq (spared other later))⟩
        · intro key old absent unshared
          rw [List.map_cons, List.mem_cons, not_or] at absent
          exact others key old absent.2 (unshared.set absent.1 found sets.tables
            fun id listed used => absurd used (fresh id listed))
        · rw [List.map_cons, List.sum_cons, size]
          rw [same] at free'
          omega
      · omega

end Swaps

end BlockSpaceManagerV2

end ScalarLM.Cache
