import ScalarLM.Cache.BlockTable

/-! What adding to a table does to its blocks and to the allocator. -/

namespace ScalarLM.Cache

open Paging

section Extensions

/-- A table's blocks are edited, `used` free blocks go into it, and `others` are the
references from elsewhere. -/
structure Extends (others : Multiset BlockId) (before : NaiveBlockAllocator) (ids : List BlockId)
    (after : NaiveBlockAllocator) (edited : List BlockId) (used : Nat) : Prop where
  books : after.Books (others + ↑edited)
  edits : ∃ moves, Edited others ids moves edited ∧
    after.copyOnWrites = before.copyOnWrites ++ moves ∧
    edited.length + moves.length = ids.length + used
  all : after.allBlockIndices = before.allBlockIndices
  size : after.blockSize = before.blockSize
  within : (∀ id ∈ ids, id ∈ before.allBlockIndices) →
    ∀ id ∈ edited, id ∈ before.allBlockIndices
  free : before.freeBlockIndices.length = after.freeBlockIndices.length + used

namespace Extends

variable {others : Multiset BlockId} {before middle after : NaiveBlockAllocator}
  {ids edited final : List BlockId} {used more : Nat}

theorem length_le_used (step : Extends others before [] after edited used) :
    edited.length ≤ used := by
  obtain ⟨moves, _, _, count⟩ := step.edits
  rw [List.length_nil] at count
  omega

theorem copyOnWrites_eq (step : Extends others before [] after edited used)
    (long : used ≤ edited.length) : after.copyOnWrites = before.copyOnWrites := by
  obtain ⟨moves, _, noted, count⟩ := step.edits
  rw [List.length_nil] at count
  have few : moves.length = 0 := by omega
  rw [noted, List.length_eq_zero_iff.mp few, List.append_nil]

theorem refl (books : before.Books (others + ↑ids)) : Extends others before ids before ids 0 where
  books := books
  edits := ⟨[], .refl, (List.append_nil _).symm, rfl⟩
  all := rfl
  size := rfl
  within := id
  free := rfl

theorem trans (first : Extends others before ids middle edited used)
    (second : Extends others middle edited after final more) :
    Extends others before ids after final (used + more) where
  books := second.books
  edits := by
    obtain ⟨moves, edits, noted, count⟩ := first.edits
    obtain ⟨moves', edits', noted', count'⟩ := second.edits
    refine ⟨moves ++ moves', edits.trans edits', by rw [noted', noted, List.append_assoc], ?_⟩
    rw [List.length_append]
    omega
  all := second.all.trans first.all
  size := second.size.trans first.size
  within inside := by
    rw [← first.all]
    exact second.within (by rw [first.all]; exact first.within inside)
  free := by rw [first.free, second.free]; omega

theorem take (books : before.Books (others + ↑ids)) {id : BlockId} {rest : List BlockId}
    (first : before.freeBlockIndices = id :: rest) :
    Extends others before ids (before.taken id) (ids ++ [id]) 1 := by
  have fresh := books.fresh first
  rw [Multiset.mem_add, not_or, Multiset.mem_coe] at fresh
  have listed : (others + ↑(ids ++ [id]) : Multiset BlockId) = id ::ₘ (others + ↑ids) := by
    rw [← Multiset.coe_add, ← Multiset.add_assoc, Multiset.coe_singleton, Multiset.add_comm,
      Multiset.singleton_add]
  refine ⟨?_, ⟨[], .grow id .refl fresh.2.1 fresh.2.2, (List.append_nil _).symm,
    by rw [List.length_append]; rfl⟩, rfl, rfl,
    ?_, ?_⟩
  · rw [listed]
    exact books.taken first
  · intro inside other member
    rcases List.mem_append.mp member with old | new
    · exact inside other old
    · exact List.mem_singleton.mp new ▸ fresh.1
  · simp [NaiveBlockAllocator.taken, first]

end Extends

theorem references_split (others : Multiset BlockId) {ids : List BlockId} {index : Nat}
    {id : BlockId} (there : ids[index]? = some id) (changed : BlockId) :
    (others + ↑(ids.set index changed) : Multiset BlockId) =
      changed ::ₘ (others + ↑(ids.eraseIdx index)) := by
  have inside := (List.getElem?_eq_some_iff.mp there).1
  have same := Multiset.coe_eq_coe.mpr (List.set_perm_cons_eraseIdx inside changed)
  rw [same, ← Multiset.cons_coe, Multiset.add_cons]

theorem references_split_self (others : Multiset BlockId) {ids : List BlockId} {index : Nat}
    {id : BlockId} (there : ids[index]? = some id) :
    (others + ↑ids : Multiset BlockId) = id ::ₘ (others + ↑(ids.eraseIdx index)) := by
  have split := references_split others there id
  obtain ⟨inside, found⟩ := List.getElem?_eq_some_iff.mp there
  rwa [← found, List.set_getElem_self, found] at split

theorem not_mem_eraseIdx {ids : List BlockId} (once : ids.Nodup) {index : Nat} {id : BlockId}
    (there : ids[index]? = some id) : id ∉ ids.eraseIdx index := by
  obtain ⟨inside, found⟩ := List.getElem?_eq_some_iff.mp there
  have perm := List.getElem_cons_eraseIdx_perm inside
  rw [found] at perm
  exact (List.nodup_cons.mp (perm.nodup_iff.mpr once)).1

end Extensions

section Appends

variable {others : Multiset BlockId} {allocator : NaiveBlockAllocator} {ids : List BlockId}

theorem Block.appendTokenIds_eq (block : Block) {tokenIds : List Nat}
    (room : block.tokenIds.length + tokenIds.length ≤ allocator.blockSize) :
    block.appendTokenIds allocator tokenIds =
      (allocator.cowBlockIfNotAppendable block.blockId).map fun result =>
        (⟨block.tokenIds ++ tokenIds, result.1⟩, result.2) := by
  have fits : ¬ block.numEmptySlots allocator.blockSize < tokenIds.length := by
    rw [Block.numEmptySlots]
    omega
  simp only [Block.appendTokenIds, if_neg fits]
  rfl

theorem Extends.exchange (books : allocator.Books (others + ↑ids)) {index : Nat}
    (inside : ∀ id ∈ ids, id ∈ allocator.allBlockIndices) (once : ids.Nodup)
    {id target : BlockId} {rest : List BlockId} (there : ids[index]? = some id)
    (shared : id ∈ others) (first : allocator.freeBlockIndices = target :: rest) :
    Extends others allocator ids (allocator.exchanged id target (others.count id))
      (ids.set index target) 1 := by
  have within := inside id (List.mem_of_getElem? there)
  have fresh := books.fresh first
  rw [Multiset.mem_add, not_or, Multiset.mem_coe] at fresh
  have elsewhere : id ∈ others + ↑(ids.eraseIdx index) := Multiset.mem_add.mpr (.inl shared)
  have count : (others + ↑(ids.eraseIdx index) : Multiset BlockId).count id = others.count id := by
    rw [Multiset.count_add, Multiset.coe_count,
      List.count_eq_zero.mpr (not_mem_eraseIdx once there), Nat.add_zero]
  have split := references_split_self others there
  have step := NaiveBlockAllocator.Books.exchanged (split ▸ books) within elsewhere first
  refine ⟨?_, ⟨[(id, target)], .move index id target .refl there shared fresh.2.1 fresh.2.2, rfl,
    by rw [List.length_set]; rfl⟩, rfl, rfl, ?_, ?_⟩
  · rw [references_split others there, ← count]
    exact step
  · intro _ other member
    rcases List.mem_or_eq_of_mem_set member with old | new
    · exact inside other old
    · exact new ▸ fresh.1
  · have kept := NaiveBlockAllocator.released_free_of_shared allocator shared
    simp [NaiveBlockAllocator.exchanged, NaiveBlockAllocator.taken, kept, first]

/-- Appending to one block succeeds, with a block of its own afterwards, or the block is
shared and no block is free. -/
theorem BlockList.appendTokenIds_outcome (list : BlockList)
    (books : allocator.Books (others + ↑list.blockIds)) (once : list.blockIds.Nodup)
    (within : ∀ id ∈ list.blockIds, id ∈ allocator.allBlockIndices) {index : Nat} {block : Block}
    (there : list.blocks[index]? = some block) {tokenIds : List Nat}
    (room : block.tokenIds.length + tokenIds.length ≤ allocator.blockSize) :
    (∃ appended allocator' used id,
      list.appendTokenIds allocator index tokenIds = .ok (appended, allocator') ∧
      Extends others allocator list.blockIds allocator' appended.blockIds used ∧
      used ≤ (if block.blockId ∈ others then 1 else 0) ∧
      appended.blocks = list.blocks.set index ⟨block.tokenIds ++ tokenIds, id⟩ ∧
      id ∉ others) ∨
    (block.blockId ∈ others ∧ allocator.freeBlockIndices = [] ∧
      list.appendTokenIds allocator index tokenIds = .error .noFreeBlocks) := by
  have listed : list.blockIds[index]? = some block.blockId := by
    rw [list.listed, List.getElem?_map, there, Option.map_some]
  have inside := within _ (List.mem_of_getElem? listed)
  have apart := not_mem_eraseIdx once listed
  have split := references_split_self others listed
  rw [list.appendTokenIds_eq there, block.appendTokenIds_eq room]
  by_cases shared : block.blockId ∈ others
  · have elsewhere : block.blockId ∈ others + ↑(list.blockIds.eraseIdx index) :=
      Multiset.mem_add.mpr (.inl shared)
    cases free : allocator.freeBlockIndices with
    | nil =>
        refine .inr ⟨shared, rfl, ?_⟩
        rw [NaiveBlockAllocator.cow_shared_full (split ▸ books) inside elsewhere free]
        rfl
    | cons target rest =>
        have count : (others + ↑(list.blockIds.eraseIdx index) : Multiset BlockId).count
            block.blockId = others.count block.blockId := by
          rw [Multiset.count_add, Multiset.coe_count, List.count_eq_zero.mpr apart, Nat.add_zero]
        have fresh := books.fresh free
        rw [Multiset.mem_add, not_or, Multiset.mem_coe] at fresh
        refine .inl ⟨list.replaced there ⟨block.tokenIds ++ tokenIds, target⟩,
          allocator.exchanged block.blockId target (others.count block.blockId), 1, target, ?_,
          ?_, by rw [if_pos shared], rfl, fresh.2.1⟩
        · rw [NaiveBlockAllocator.cow_shared (split ▸ books) inside elsewhere free, count]
          rfl
        · have step := Extends.exchange books within once listed shared free
          rwa [BlockList.replaced_blockIds]
  · have own : block.blockId ∉ others + ↑(list.blockIds.eraseIdx index) := by
      rw [Multiset.mem_add, not_or, Multiset.mem_coe]
      exact ⟨shared, apart⟩
    refine .inl ⟨list.replaced there ⟨block.tokenIds ++ tokenIds, block.blockId⟩, allocator, 0,
      block.blockId, ?_, ?_, Nat.zero_le _, rfl, shared⟩
    · rw [NaiveBlockAllocator.cow_own (split ▸ books) inside own]
      rfl
    · have same : (list.replaced there ⟨block.tokenIds ++ tokenIds, block.blockId⟩).blockIds =
          list.blockIds := if_neg (not_not.mpr rfl)
      rw [same]
      exact .refl books

theorem Extends.nodup {before after : NaiveBlockAllocator} {edited : List BlockId} {used : Nat}
    (step : Extends others before ids after edited used) (once : ids.Nodup) : edited.Nodup := by
  obtain ⟨moves, edits, _⟩ := step.edits
  exact edits.nodup once

theorem Extends.kept {before after : NaiveBlockAllocator} {edited : List BlockId} {used : Nat}
    (step : Extends others before ids after edited used) {index : Nat} {id : BlockId}
    (there : edited[index]? = some id) (shared : id ∈ others) : ids[index]? = some id := by
  obtain ⟨moves, edits, _⟩ := step.edits
  exact edits.kept there shared

theorem Extends.length_le {before after : NaiveBlockAllocator} {edited : List BlockId} {used : Nat}
    (step : Extends others before ids after edited used) : ids.length ≤ edited.length := by
  obtain ⟨moves, edits, _⟩ := step.edits
  exact edits.length_le

theorem Extends.inside {before after : NaiveBlockAllocator} {edited : List BlockId} {used : Nat}
    (step : Extends others before ids after edited used)
    (inside : ∀ id ∈ ids, id ∈ before.allBlockIndices) :
    ∀ id ∈ edited, id ∈ after.allBlockIndices := by
  rw [step.all]
  exact step.within inside

/-- Each chunk goes to the next block. Blocks from `old` on are shared with nobody, so
that only the blocks before it may have to be copied. -/
theorem BlockTable.appendBlocks_outcome (chunks : List (List Nat)) (list : BlockList)
    (allocator : NaiveBlockAllocator) (index old : Nat)
    (books : allocator.Books (others + ↑list.blockIds)) (once : list.blockIds.Nodup)
    (within : ∀ id ∈ list.blockIds, id ∈ allocator.allBlockIndices)
    (room : ∀ offset chunk, chunks[offset]? = some chunk →
      ∃ block, list.blocks[index + offset]? = some block ∧
        block.tokenIds.length + chunk.length ≤ allocator.blockSize)
    (own : ∀ place id, old ≤ place → list.blockIds[place]? = some id → id ∉ others) :
    (∃ appended allocator' used,
      appendBlocks list allocator index chunks = .ok (appended, allocator') ∧
      Extends others allocator list.blockIds allocator' appended.blockIds used ∧
      used ≤ min chunks.length (old - index) ∧
      (∀ place, appended.blocks[place]?.map Block.tokenIds =
        list.blocks[place]?.map fun block => block.tokenIds ++
          if index ≤ place then chunks[place - index]?.getD [] else []) ∧
      ∀ offset id, offset < chunks.length → appended.blockIds[index + offset]? = some id →
        id ∉ others) ∨
    (appendBlocks list allocator index chunks = .error .noFreeBlocks ∧
      allocator.freeBlockIndices.length < min chunks.length (old - index)) := by
  induction chunks generalizing list allocator index with
  | nil =>
      refine .inl ⟨list, allocator, 0, rfl, .refl books, Nat.zero_le _, ?_, ?_⟩
      · intro place
        simp
      · intro offset id bound
        exact absurd bound (Nat.not_lt_zero _)
  | cons chunk rest ih =>
      obtain ⟨block, there, fits⟩ := room 0 chunk rfl
      rw [Nat.add_zero] at there
      have listed : list.blockIds[index]? = some block.blockId := by
        rw [list.listed, List.getElem?_map, there, Option.map_some]
      have early : block.blockId ∈ others → index < old := fun shared =>
        Nat.lt_of_not_le fun late => own index _ late listed shared
      rcases list.appendTokenIds_outcome books once within there fits with
        ⟨appended, allocator', used, id, run, step, bound, blocks, alone⟩ | ⟨shared, none, run⟩
      · have ids : appended.blockIds = list.blockIds.set index id := by
          rw [appended.listed, blocks, List.map_set, list.listed]
        have place_lt := (List.getElem?_eq_some_iff.mp listed).1
        have later := ih appended allocator' (index + 1) step.books (step.nodup once)
          (by rw [step.all]; exact step.within within)
          (by
            intro offset other found
            obtain ⟨next, at', fits'⟩ := room (offset + 1) other found
            refine ⟨next, ?_, by rw [step.size]; exact fits'⟩
            rw [blocks, List.getElem?_set_ne (by omega), ← at']
            congr 1
            omega)
          (by
            intro place other late found
            rw [ids, List.getElem?_set] at found
            split at found
            · exact Option.some.inj found ▸ alone
            · exact own place other late found)
        have unfolded : appendBlocks list allocator index (chunk :: rest) =
            appendBlocks appended allocator' (index + 1) rest := by
          rw [appendBlocks, run]
          rfl
        rw [unfolded]
        have used_le : used + min rest.length (old - (index + 1)) ≤
            min (chunk :: rest).length (old - index) := by
          rw [List.length_cons]
          split at bound
          · have := early (by assumption)
            omega
          · omega
        rcases later with ⟨final, allocator'', more, run', step', bound', tokens, touched⟩ |
          ⟨run', few⟩
        · refine .inl ⟨final, allocator'', used + more, run', step.trans step', by omega, ?_, ?_⟩
          · intro place
            rw [tokens place, blocks, List.getElem?_set]
            by_cases here : index = place
            · subst here
              obtain ⟨inside, found⟩ := List.getElem?_eq_some_iff.mp there
              simp [inside, found]
            · rw [if_neg here]
              congr 1
              funext other
              by_cases behind : index + 1 ≤ place
              · rw [if_pos behind, if_pos (by omega : index ≤ place)]
                have shifted : place - index = place - (index + 1) + 1 := by omega
                rw [shifted, List.getElem?_cons_succ]
              · rw [if_neg behind, if_neg (by omega : ¬ index ≤ place)]
          · intro offset other inside found
            cases offset with
            | zero =>
                intro shared
                have before := step'.kept found shared
                rw [Nat.add_zero, ids, List.getElem?_set_self place_lt] at before
                exact alone (Option.some.inj before ▸ shared)
            | succ offset =>
                refine touched offset other (Nat.lt_of_succ_lt_succ inside) ?_
                rw [← found]
                congr 1
                omega
        · refine .inr ⟨run', ?_⟩
          rw [step.free]
          omega
      · refine .inr ⟨?_, ?_⟩
        · rw [appendBlocks, run]
          rfl
        · have := early shared
          rw [none, List.length_nil, List.length_cons]
          omega

theorem BlockTable.growBlocks_outcome (count : Nat) (list : BlockList)
    (allocator : NaiveBlockAllocator) (books : allocator.Books (others + ↑list.blockIds)) :
    (∃ grown allocator', growBlocks list allocator count = .ok (grown, allocator') ∧
      Extends others allocator list.blockIds allocator' grown.blockIds count ∧
      grown.blocks.map Block.tokenIds =
        list.blocks.map Block.tokenIds ++ List.replicate count []) ∨
    (growBlocks list allocator count = .error .noFreeBlocks ∧
      allocator.freeBlockIndices.length < count) := by
  induction count generalizing list allocator with
  | zero => exact .inl ⟨list, allocator, rfl, .refl books, by simp⟩
  | succ count ih =>
      cases free : allocator.freeBlockIndices with
      | nil =>
          refine .inr ⟨?_, Nat.succ_pos count⟩
          rw [growBlocks, NaiveBlockAllocator.allocateMutableBlock,
            NaiveBlockAllocator.allocateBlockId_nil free]
          rfl
      | cons id rest =>
          have step := Extends.take books free
          have unfolded : growBlocks list allocator (count + 1) =
              growBlocks (list.append ⟨[], id⟩) (allocator.taken id) count := by
            rw [growBlocks, NaiveBlockAllocator.allocateMutableBlock,
              NaiveBlockAllocator.allocateBlockId_eq books free]
            rfl
          rw [unfolded]
          rcases ih (list.append ⟨[], id⟩) (allocator.taken id) step.books with
            ⟨grown, allocator', run, later, tokens⟩ | ⟨run, few⟩
          · refine .inl ⟨grown, allocator', run, ?_, ?_⟩
            · rw [Nat.add_comm]
              exact step.trans later
            · rw [tokens, List.replicate_succ]
              simp [BlockList.append]
          · refine .inr ⟨run, ?_⟩
            have used := step.free
            rw [free] at used
            omega

end Appends

end ScalarLM.Cache
