import ScalarLM.Cache.KvMemory
import ScalarLM.Cache.ManagerRuns

/-! Each sequence reads its own keys and values through its table, whatever the manager does. -/

namespace ScalarLM.Cache

open Paging BlockSpaceManagerV2

section Stored

variable {ν : Type} {groupOf : Nat → Nat}

/-- Every table reads what is stored for its sequence. Blocks are shared within a group
only, and those that are still to be written to are not shared. -/
structure Stored (groupOf : Nat → Nat) (manager : BlockSpaceManagerV2)
    (memory : BlockId → Nat → ν) (stored : Nat → List ν) : Prop where
  accounted : manager.Accounted
  reads : ∀ key table, manager.blockTables.get? key = some table →
    Reads manager.blockSize memory table.physicalBlockIds (stored key)
  fits : ∀ key table, manager.blockTables.get? key = some table →
    (stored key).length ≤ table.numFullSlots
  own : ∀ key table, manager.blockTables.get? key = some table →
    ∀ position id, (stored key).length ≤ position → position < table.numFullSlots →
      table.physicalBlockIds[position / manager.blockSize]? = some id →
        id ∉ references (manager.blockTables.erase key)
  grouped : ∀ left right leftTable rightTable id,
    manager.blockTables.get? left = some leftTable →
    manager.blockTables.get? right = some rightTable →
    id ∈ leftTable.physicalBlockIds → id ∈ rightTable.physicalBlockIds →
      groupOf left = groupOf right

namespace Stored

variable {manager after : BlockSpaceManagerV2} {memory memory' : BlockId → Nat → ν}
  {stored : Nat → List ν} {key : Nat} {table : BlockTable}

theorem start (manager : BlockSpaceManagerV2) (accounted : manager.Accounted)
    (none : manager.blockTables = .empty) (memory : BlockId → Nat → ν) (stored : Nat → List ν) :
    Stored groupOf manager memory stored := by
  have absent : ∀ key, manager.blockTables.get? key = Option.none := by
    rw [none]
    exact fun _ => rfl
  refine ⟨accounted, ?_, ?_, ?_, ?_⟩
  · intro key table found
    cases (absent key).symm.trans found
  · intro key table found
    cases (absent key).symm.trans found
  · intro key table found
    cases (absent key).symm.trans found
  · intro left right table _ _ found
    cases (absent left).symm.trans found

/-- One table is set. The blocks of the others keep their content, and those of them that
are still to be written to are not in the new table. -/
theorem set (given : Stored groupOf manager memory stored) (sets : Sets manager after key table)
    {stored' : Nat → List ν} (same : ∀ other, other ≠ key → stored' other = stored other)
    (kept : ∀ id ∈ references (manager.blockTables.erase key), memory' id = memory id)
    (reads : Reads manager.blockSize memory' table.physicalBlockIds (stored' key))
    (fits : (stored' key).length ≤ table.numFullSlots)
    (own : ∀ position id, (stored' key).length ≤ position → position < table.numFullSlots →
      table.physicalBlockIds[position / manager.blockSize]? = some id →
        id ∉ references (manager.blockTables.erase key))
    (unshared : ∀ other held, other ≠ key → manager.blockTables.get? other = some held →
      ∀ position id, (stored other).length ≤ position → position < held.numFullSlots →
        held.physicalBlockIds[position / manager.blockSize]? = some id →
          id ∉ table.physicalBlockIds)
    (grouped : ∀ other held, other ≠ key → manager.blockTables.get? other = some held →
      ∀ id ∈ table.physicalBlockIds, id ∈ held.physicalBlockIds → groupOf other = groupOf key) :
    Stored groupOf after memory' stored' := by
  have here : after.blockTables.get? key = some table := by
    rw [sets.tables, get?_set_self]
  have there : ∀ other, other ≠ key → after.blockTables.get? other =
      manager.blockTables.get? other := by
    intro other different
    rw [sets.tables, get?_set_other _ different]
  have erased : ∀ id, id ∈ references (after.blockTables.erase key) →
      id ∈ references (manager.blockTables.erase key) := by
    intro id shared
    obtain ⟨other, held, different, found, member⟩ := mem_references_erase.mp shared
    rw [there other different] at found
    exact mem_references_erase.mpr ⟨other, held, different, found, member⟩
  refine ⟨sets.accounted, ?_, ?_, ?_, ?_⟩
  · intro other held found
    rw [sets.size]
    by_cases equal : other = key
    · rw [equal, here] at found
      rw [equal, ← Option.some.inj found]
      exact reads
    · rw [there other equal] at found
      rw [same other equal]
      exact (given.reads other held found).congr fun page member =>
        kept page (mem_references_erase.mpr ⟨other, held, equal, found, member⟩)
  · intro other held found
    by_cases equal : other = key
    · rw [equal, here] at found
      rw [equal, ← Option.some.inj found]
      exact fits
    · rw [there other equal] at found
      rw [same other equal]
      exact given.fits other held found
  · intro other held found position id late early place shared
    rw [sets.size] at place
    by_cases equal : other = key
    · rw [equal, here] at found
      rw [equal] at late shared
      rw [← Option.some.inj found] at early place
      exact own position id late early place (erased id shared)
    · rw [there other equal] at found
      rw [same other equal] at late
      rw [sets.tables] at shared
      rcases shared_set shared with new | old
      · exact unshared other held equal found position id late early place new
      · exact given.own other held found position id late early place old
  · intro left right leftTable rightTable id found found' member member'
    by_cases equal : left = key
    · by_cases equal' : right = key
      · rw [equal, equal']
      · rw [equal, here] at found
        rw [there right equal'] at found'
        rw [← Option.some.inj found] at member
        rw [equal]
        exact (grouped right rightTable equal' found' id member member').symm
    · rw [there left equal] at found
      by_cases equal' : right = key
      · rw [equal', here] at found'
        rw [← Option.some.inj found'] at member'
        rw [equal']
        exact grouped left leftTable equal found id member' member
      · rw [there right equal'] at found'
        exact given.grouped left right leftTable rightTable id found found' member member'

theorem exchange (given : Stored groupOf manager memory stored)
    (sets : Sets manager after key table)
    {stored' : Nat → List ν} (same : ∀ other, other ≠ key → stored' other = stored other)
    (kept : ∀ id ∈ references (manager.blockTables.erase key), memory' id = memory id)
    (reads : Reads manager.blockSize memory' table.physicalBlockIds (stored' key))
    (fits : (stored' key).length ≤ table.numFullSlots)
    (own : ∀ position id, (stored' key).length ≤ position → position < table.numFullSlots →
      table.physicalBlockIds[position / manager.blockSize]? = some id →
        id ∉ references (manager.blockTables.erase key))
    (shared : ∀ id ∈ table.physicalBlockIds,
      id ∈ references (manager.blockTables.erase key) →
        ∃ old, manager.blockTables.get? key = some old ∧ id ∈ old.physicalBlockIds) :
    Stored groupOf after memory' stored' := by
  refine given.set sets same kept reads fits own ?_ ?_
  · intro other held different found position id late early place member
    have elsewhere : id ∈ references (manager.blockTables.erase key) :=
      mem_references_erase.mpr ⟨other, held, different, found, List.mem_of_getElem? place⟩
    obtain ⟨old, before, inside⟩ := shared id member elsewhere
    exact given.own other held found position id late early place
      (mem_references_erase.mpr ⟨key, old, Ne.symm different, before, inside⟩)
  · intro other held different found id member inside
    obtain ⟨old, before, inside'⟩ := shared id member
      (mem_references_erase.mpr ⟨other, held, different, found, inside⟩)
    exact given.grouped other key held old id found before inside inside'

theorem free (given : Stored groupOf manager memory stored) (accounted : after.Accounted)
    (size : after.blockSize = manager.blockSize)
    (tables : ∀ other, after.blockTables.get? other =
      if other = key then none else manager.blockTables.get? other) :
    Stored groupOf after memory stored := by
  have before : ∀ other held, after.blockTables.get? other = some held →
      manager.blockTables.get? other = some held := by
    intro other held found
    rw [tables] at found
    split at found
    · cases found
    · exact found
  refine ⟨accounted, ?_, ?_, ?_, ?_⟩
  · intro other held found
    rw [size]
    exact given.reads other held (before other held found)
  · intro other held found
    exact given.fits other held (before other held found)
  · intro other held found position id late early place shared
    rw [size] at place
    obtain ⟨holder, its, apart, found', member⟩ := mem_references_erase.mp shared
    exact given.own other held (before other held found) position id late early place
      (mem_references_erase.mpr ⟨holder, its, apart, before holder its found', member⟩)
  · intro left right leftTable rightTable id found found'
    exact given.grouped left right leftTable rightTable id (before left leftTable found)
      (before right rightTable found')

/-- A child starts with what its parent has stored, when that is all its parent has. -/
theorem fork (given : Stored groupOf manager memory stored) (sets : Sets manager after key table)
    {parent : Nat}
    (found : manager.blockTables.get? parent = some table)
    (full : (stored parent).length = table.numFullSlots) (group : groupOf key = groupOf parent)
    {stored' : Nat → List ν} (same : ∀ other, other ≠ key → stored' other = stored other)
    (copied : stored' key = stored parent) : Stored groupOf after memory stored' := by
  refine given.set sets same (fun _ _ => rfl) ?_ ?_ ?_ ?_ ?_
  · rw [copied]
    exact given.reads parent table found
  · rw [copied, full]
  · intro position id late early
    rw [copied, full] at late
    exact absurd early (Nat.not_lt.mpr late)
  · intro other held different found' position id late early place member
    by_cases equal : other = parent
    · rw [equal, found] at found'
      rw [equal, full, Option.some.inj found'] at late
      exact absurd early (Nat.not_lt.mpr late)
    · exact given.own other held found' position id late early place
        (mem_references_erase.mpr ⟨parent, table, Ne.symm equal, found, member⟩)
  · intro other held different found' id member member'
    rw [group]
    exact given.grouped other parent held table id found' found member' member

/-- What is computed for the next tokens of a sequence is stored in its own blocks. -/
theorem compute {engine : CacheEngine ν}
    (given : Stored groupOf manager
      (engine.memory manager.blockAllocator.gpu.allBlockIndices.length) stored)
    (found : manager.blockTables.get? key = some table)
    (there : ∀ id ∈ table.physicalBlockIds, id ∈ manager.blockAllocator.gpu.allBlockIndices)
    (values : List ν) (room : (stored key).length + values.length ≤ table.numFullSlots) :
    ∃ slots, computeSlotMapping table.physicalBlockIds (stored key).length
        ((stored key).length + values.length) manager.blockSize = some slots ∧
      Stored groupOf manager ((engine.reshape manager.blockSize slots values).memory
        manager.blockAllocator.gpu.allBlockIndices.length)
        (Function.update stored key (stored key ++ values)) := by
  have lies := given.accounted.lies found (show ∀ id ∈ table.physicalBlockIds,
    id ∈ (manager.blockAllocator.on .gpu).allBlockIndices from there)
  have long := lies.length_le
  rw [← lies.counted] at long
  obtain ⟨slots, mapped, reads, kept⟩ := reshape_reads given.accounted.positive values engine
    (stored key) (given.reads key table found) lies.once
    (fun page member => given.accounted.numbered.mem_gpu (there page member)) (room.trans long)
  have spared : ∀ page ∈ references (manager.blockTables.erase key),
      (engine.reshape manager.blockSize slots values).memory
        manager.blockAllocator.gpu.allBlockIndices.length page =
          engine.memory manager.blockAllocator.gpu.allBlockIndices.length page := by
    intro page shared
    refine kept page fun position late early place => ?_
    exact given.own key table found position page late (Nat.lt_of_lt_of_le early room) place shared
  refine ⟨slots, mapped, given.accounted, ?_, ?_, ?_, given.grouped⟩
  · intro other held found'
    by_cases equal : other = key
    · rw [equal, found] at found'
      rw [equal, Function.update_self, ← Option.some.inj found']
      exact reads
    · rw [Function.update_of_ne equal]
      exact (given.reads other held found').congr fun page member =>
        spared page (mem_references_erase.mpr ⟨other, held, equal, found', member⟩)
  · intro other held found'
    by_cases equal : other = key
    · rw [equal, found] at found'
      rw [equal, Function.update_self, ← Option.some.inj found', List.length_append]
      exact room
    · rw [Function.update_of_ne equal]
      exact given.fits other held found'
  · intro other held found' position id late
    refine given.own other held found' position id ?_
    by_cases equal : other = key
    · rw [equal, Function.update_self, List.length_append] at late
      rw [equal]
      omega
    · rwa [Function.update_of_ne equal] at late

end Stored

end Stored

end ScalarLM.Cache
