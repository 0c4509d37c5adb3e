import ScalarLM.Cache.Stored

/-! Scheduling steps: the manager's operations come first, and the worker makes the transfers
that were gathered. -/

namespace ScalarLM.Cache

open Engine Paging BlockSpaceManagerV2

section Steps

variable {V : Type}

inductive ScheduleOp (V : Type) where
  | allocate (group : SequenceGroup V)
  | appendSlots (seq : Sequence) (numLookaheadSlots : Nat)
  | free (seqId : Nat)
  | swapIn (group : SequenceGroup V)
  | swapOut (group : SequenceGroup V)

structure Transfers where
  blocksToSwapIn : List (Nat × Nat)
  blocksToSwapOut : List (Nat × Nat)
  blocksToCopy : List (Nat × Nat)
  deriving DecidableEq, Repr

namespace Transfers

def none : Transfers := ⟨[], [], []⟩

variable (transfers : Transfers)

def swap : Device → List (Nat × Nat) → Transfers
  | .gpu, moves => { transfers with blocksToSwapIn := transfers.blocksToSwapIn ++ moves }
  | .cpu, moves => { transfers with blocksToSwapOut := transfers.blocksToSwapOut ++ moves }

def copy (moves : List (Nat × Nat)) : Transfers :=
  { transfers with blocksToCopy := transfers.blocksToCopy ++ moves }

end Transfers

namespace ScheduleOp

def perform (manager : BlockSpaceManagerV2) (transfers : Transfers) :
    ScheduleOp V → Except CacheError (Transfers × BlockSpaceManagerV2)
  | .allocate group => do
    let manager ← manager.allocate group
    return (transfers, manager)
  | .appendSlots seq numLookaheadSlots => do
    let (cows, manager) ← manager.appendSlots seq numLookaheadSlots
    return (transfers.copy cows, manager)
  | .free seqId => do
    let manager ← manager.free seqId
    return (transfers, manager)
  | .swapIn group => do
    let (moves, manager) ← manager.swapIn group
    return (transfers.swap .gpu moves, manager)
  | .swapOut group => do
    let (moves, manager) ← manager.swapOut group
    return (transfers.swap .cpu moves, manager)

def store {ν : Type} (stored : Nat → List ν) : ScheduleOp V → Nat → List ν
  | .allocate group => fun key =>
    if key ∈ (group.getSeqs .waiting).map Sequence.seqId then [] else stored key
  | _ => stored

def touches (groupOf : Nat → Nat) : ScheduleOp V → List Nat
  | .appendSlots seq _ => [groupOf seq.seqId]
  | _ => []

end ScheduleOp

/-- The operations of a step that swaps to this device only. A group is allocated with one
sequence, and what is given up or moved has not been appended to in the step. -/
def ScheduleOp.Allowed (groupOf : Nat → Nat) (direction : Device) (manager : BlockSpaceManagerV2)
    (touched : List Nat) : ScheduleOp V → Prop
  | .allocate group => ∃ seq, group.getSeqs .waiting = [seq] ∧ seq.data.getTokenIds ≠ []
  | .appendSlots seq _ => manager.Located .gpu seq.seqId
  | .free seqId => manager.Located .gpu seqId ∧ groupOf seqId ∉ touched
  | .swapIn group => direction = .gpu ∧ Movable manager .gpu (group.getSeqs .swapped) ∧
    ∀ seq ∈ group.getSeqs .swapped, groupOf seq.seqId ∉ touched
  | .swapOut group => direction = .cpu ∧ Movable manager .cpu (group.getSeqs .running) ∧
    ∀ seq ∈ group.getSeqs .running, groupOf seq.seqId ∉ touched

end Steps

section Gathered

variable {groupOf : Nat → Nat} {manager after : BlockSpaceManagerV2} {key : Nat}
  {table : BlockTable} {copies : List (BlockId × BlockId)} {touched : List Nat}

/-- The copies gathered so far. They go to blocks of groups that were appended to, and each
target has one holder. -/
structure Gathered (groupOf : Nat → Nat) (manager : BlockSpaceManagerV2)
    (copies : List (BlockId × BlockId)) (touched : List Nat) : Prop where
  once : (copies.map Prod.snd).Nodup
  apart : ∀ move ∈ copies, move.1 ∉ copies.map Prod.snd
  sources : ∀ move ∈ copies, ∃ key table, manager.blockTables.get? key = some table ∧
    groupOf key ∈ touched ∧ move.1 ∈ table.physicalBlockIds
  targets : ∀ move ∈ copies, ∃ key table, manager.blockTables.get? key = some table ∧
    groupOf key ∈ touched ∧ move.2 ∈ table.physicalBlockIds ∧
      move.2 ∉ references (manager.blockTables.erase key)

namespace Gathered

theorem start (manager : BlockSpaceManagerV2) : Gathered groupOf manager [] touched where
  once := List.nodup_nil
  apart _ member := absurd member List.not_mem_nil
  sources _ member := absurd member List.not_mem_nil
  targets _ member := absurd member List.not_mem_nil

/-- The holders of the copied blocks are not concerned when another sequence gets blocks
that nobody else has. -/
theorem set (gathered : Gathered groupOf manager copies touched)
    (sets : Sets manager after key table)
    (untouched : ∀ old, manager.blockTables.get? key = some old → groupOf key ∉ touched)
    (fresh : ∀ id ∈ table.physicalBlockIds, id ∉ references (manager.blockTables.erase key)) :
    Gathered groupOf after copies touched := by
  have other : ∀ {holder held}, manager.blockTables.get? holder = some held →
      groupOf holder ∈ touched → holder ≠ key := by
    intro holder held found member same
    rw [same] at found member
    exact untouched held found member
  refine ⟨gathered.once, gathered.apart, ?_, ?_⟩
  · intro move member
    obtain ⟨holder, held, found, inside, listed⟩ := gathered.sources move member
    refine ⟨holder, held, ?_, inside, listed⟩
    rw [sets.tables, get?_set_other _ (other found inside), found]
  · intro move member
    obtain ⟨holder, held, found, inside, listed, alone⟩ := gathered.targets move member
    have different := other found inside
    refine ⟨holder, held, ?_, inside, listed, ?_⟩
    · rw [sets.tables, get?_set_other _ different, found]
    · intro shared
      rw [sets.tables] at shared
      rcases shared_set shared with new | old
      · exact fresh _ new (mem_references_erase.mpr ⟨holder, held, different, found, listed⟩)
      · exact alone old

theorem free (gathered : Gathered groupOf manager copies touched)
    (untouched : groupOf key ∉ touched)
    (tables : ∀ other, after.blockTables.get? other =
      if other = key then none else manager.blockTables.get? other) :
    Gathered groupOf after copies touched := by
  have kept : ∀ {holder held}, manager.blockTables.get? holder = some held →
      groupOf holder ∈ touched → after.blockTables.get? holder = some held := by
    intro holder held found member
    have different : holder ≠ key := fun same => untouched (same ▸ member)
    rw [tables, if_neg different, found]
  refine ⟨gathered.once, gathered.apart, ?_, ?_⟩
  · intro move member
    obtain ⟨holder, held, found, inside, listed⟩ := gathered.sources move member
    exact ⟨holder, held, kept found inside, inside, listed⟩
  · intro move member
    obtain ⟨holder, held, found, inside, listed, alone⟩ := gathered.targets move member
    refine ⟨holder, held, kept found inside, inside, listed, fun shared => alone ?_⟩
    obtain ⟨sharer, its, different, found', there⟩ := mem_references_erase.mp shared
    rw [tables] at found'
    split at found'
    · cases found'
    · exact mem_references_erase.mpr ⟨sharer, its, different, found', there⟩

theorem append (gathered : Gathered groupOf manager copies touched)
    (sets : Sets manager after key table) {old : BlockTable}
    (found : manager.blockTables.get? key = some old)
    (shared : ∀ other held, manager.blockTables.get? other = some held →
      ∀ id ∈ old.physicalBlockIds, id ∈ held.physicalBlockIds → groupOf other = groupOf key)
    {cows : List (BlockId × BlockId)}
    (edits : Edited (references (manager.blockTables.erase key)) old.physicalBlockIds cows
      table.physicalBlockIds) :
    Gathered groupOf after (copies ++ cows) (groupOf key :: touched) := by
  have here : after.blockTables.get? key = some table := by
    rw [sets.tables, get?_set_self]
  have there : ∀ {holder held}, holder ≠ key → manager.blockTables.get? holder = some held →
      after.blockTables.get? holder = some held := by
    intro holder held different there
    rw [sets.tables, get?_set_other _ different, there]
  have used : ∀ {holder held id}, manager.blockTables.get? holder = some held →
      id ∈ held.physicalBlockIds → id ∉ cows.map Prod.snd := by
    intro holder held id before member target
    by_cases same : holder = key
    · rw [same, found] at before
      exact edits.targets_fresh target (Option.some.inj before ▸ member)
    · exact edits.targets_strange target
        (mem_references_erase.mpr ⟨holder, held, same, before, member⟩)
  have fromOld : ∀ move ∈ cows, move.1 ∉ copies.map Prod.snd := by
    intro move member target
    obtain ⟨earlier, made, same⟩ := List.mem_map.mp target
    obtain ⟨holder, held, before, _, listed, alone⟩ := gathered.targets earlier made
    rw [same] at listed alone
    have source := edits.sources_listed member
    by_cases equal : holder = key
    · exact alone (equal ▸ edits.sources_shared member)
    · exact alone (mem_references_erase.mpr ⟨key, old, Ne.symm equal, found, source⟩)
  refine ⟨?_, ?_, ?_, ?_⟩
  · rw [List.map_append]
    refine List.nodup_append.mpr ⟨gathered.once, edits.targets_once, ?_⟩
    intro left member right target same
    obtain ⟨move, made, equal⟩ := List.mem_map.mp member
    obtain ⟨holder, held, before, _, listed, _⟩ := gathered.targets move made
    refine used before listed ?_
    rwa [equal, same]
  · intro move member
    rw [List.map_append, List.mem_append, not_or]
    rcases List.mem_append.mp member with earlier | later
    · obtain ⟨holder, held, before, _, listed⟩ := gathered.sources move earlier
      exact ⟨gathered.apart move earlier, used before listed⟩
    · exact ⟨fromOld move later, used found (edits.sources_listed later)⟩
  · have holder : ∀ {holder held id}, manager.blockTables.get? holder = some held →
        groupOf holder ∈ groupOf key :: touched → id ∈ held.physicalBlockIds →
          ∃ holder held, after.blockTables.get? holder = some held ∧
            groupOf holder ∈ groupOf key :: touched ∧ id ∈ held.physicalBlockIds := by
      intro holder held id before inside listed
      by_cases same : holder = key
      · rw [same, found] at before
        rw [← Option.some.inj before] at listed
        by_cases elsewhere : id ∈ references (manager.blockTables.erase key)
        · obtain ⟨other, its, different, before', listed'⟩ := mem_references_erase.mp elsewhere
          exact ⟨other, its, there different before',
            shared other its before' id listed listed' ▸ List.mem_cons_self, listed'⟩
        · exact ⟨key, table, here, List.mem_cons_self, edits.own_kept elsewhere listed⟩
      · exact ⟨holder, held, there same before, inside, listed⟩
    intro move member
    rcases List.mem_append.mp member with earlier | later
    · obtain ⟨other, held, before, inside, listed⟩ := gathered.sources move earlier
      exact holder before (List.mem_cons_of_mem _ inside) listed
    · exact holder found List.mem_cons_self (edits.sources_listed later)
  · have same : ∀ id, id ∈ references (after.blockTables.erase key) →
        id ∈ references (manager.blockTables.erase key) := by
      intro id given
      obtain ⟨other, held, different, after', listed⟩ := mem_references_erase.mp given
      rw [sets.tables, get?_set_other _ different] at after'
      exact mem_references_erase.mpr ⟨other, held, different, after', listed⟩
    intro move member
    rcases List.mem_append.mp member with earlier | later
    · obtain ⟨holder, held, before, inside, listed, alone⟩ := gathered.targets move earlier
      by_cases equal : holder = key
      · rw [equal] at alone
        rw [equal, found] at before
        rw [← Option.some.inj before] at listed
        exact ⟨key, table, here, List.mem_cons_self, edits.own_kept alone listed,
          fun given => alone (same _ given)⟩
      · refine ⟨holder, held, there equal before, List.mem_cons_of_mem _ inside, listed, ?_⟩
        intro given
        rw [sets.tables] at given
        rcases shared_set given with new | old'
        · have elsewhere : move.2 ∈ references (manager.blockTables.erase key) :=
            mem_references_erase.mpr ⟨holder, held, equal, before, listed⟩
          obtain ⟨index, place⟩ := List.getElem?_of_mem new
          have kept := List.mem_of_getElem? (edits.kept place elsewhere)
          exact alone (mem_references_erase.mpr ⟨key, old, Ne.symm equal, found, kept⟩)
        · exact alone old'
    · have target : move.2 ∈ cows.map Prod.snd := List.mem_map_of_mem later
      exact ⟨key, table, here, List.mem_cons_self, edits.targets_listed target,
        fun given => edits.targets_strange target (same _ given)⟩

end Gathered

end Gathered

end ScalarLM.Cache
