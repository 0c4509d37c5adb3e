import ScalarLM.Adapter.RegistryInvariant
import ScalarLM.Lib.Recency

/-! The manager as the worker drives it: an adapter is activated as soon as it is
added, and nothing is removed but by eviction. -/

namespace ScalarLM.Adapter

section Cache

variable {V : Type} [Zero V] (host : Host V) (adapters : Nat → Dict Key V) (capacity : Nat)
  (keys : List Key)

/-- The registry is in order, the LRU list is sorted by last activation with the
active adapter at its end, and the weights are the active adapter's tensors over
the original ones. All adapters have the given keys. -/
structure CacheInvariant (state : Manager V) : Prop extends RegistryInvariant capacity state where
  logged : ∀ id ∈ state.registeredAdapters, id ∈ state.activations
  sorted : state.lruAdaptorIds.Pairwise (UsedAfter state.activations)
  last : ∀ id, state.activeAdapter = some id → state.lruAdaptorIds.getLast? = some id
  others : ∀ key ∈ host.keys, key ∉ keys → state.weights key = host.initial key
  tensors : ∀ id, state.activeAdapter = some id → ∀ key ∈ host.keys, ∀ value,
    (adapters id).get? key = some value → state.weights key = value
  base : state.activeAdapter = none → ∀ key ∈ host.keys, IsReset key →
    state.weights key = host.initial key

variable (shared : ∀ id key, key ∈ (adapters id).keys ↔ key ∈ keys)
  {capacity} {state : Manager V}

theorem updateLruPosition_eq (id : Nat) (lru : List Nat) :
    updateLruPosition id lru = lru.erase id ++ [id] := by
  unfold updateLruPosition
  split
  · rfl
  · rename_i absent
    rw [List.erase_of_not_mem absent]

theorem initial_cache : CacheInvariant host adapters capacity keys (initialManager host) where
  toRegistryInvariant := initial_registry host capacity
  logged := fun _ member => (List.not_mem_nil member).elim
  sorted := List.Pairwise.nil
  last := fun _ marked => (Option.some_ne_none _ marked.symm).elim
  others := fun _ _ _ => rfl
  tensors := fun _ marked => (Option.some_ne_none _ marked.symm).elim
  base := fun _ _ _ _ => rfl

def activatedWeights (id : Nat) (weights : Key → V) : Key → V :=
  loadStateDict host (fun key => ((adapters id).get? key).or (origLmHead host key)) weights

theorem activatedWeights_tensor (id : Nat) (weights : Key → V) (key : Key)
    (present : key ∈ host.keys) (value : V) (found : (adapters id).get? key = some value) :
    activatedWeights host adapters id weights key = value := by
  rw [activatedWeights, loadStateDict, if_pos present, found]
  rfl

include shared in
theorem activatedWeights_other (id : Nat) (weights : Key → V) (key : Key)
    (present : key ∈ host.keys) (other : key ∉ keys)
    (original : weights key = host.initial key) :
    activatedWeights host adapters id weights key = host.initial key := by
  have absent : (adapters id).get? key = none := by
    rw [Dict.get?_eq_none_iff_not_mem_keys]
    exact fun member => other ((shared id key).mp member)
  rw [activatedWeights, loadStateDict, if_pos present, absent, Option.none_or, origLmHead]
  split
  · rfl
  · exact original

include shared in
theorem activate_cache (id : Nat) (registered : id ∈ state.registeredAdapters)
    (inv : CacheInvariant host adapters capacity keys state) :
    (activateAdapter host adapters id state).2 ≠ none ∧
      CacheInvariant host adapters capacity keys (activateAdapter host adapters id state).1 ∧
      (activateAdapter host adapters id state).1.activeAdapter = some id ∧
      (activateAdapter host adapters id state).1.registeredAdapters =
        state.registeredAdapters := by
  have entries : ∀ entry ∈ state.lruAdaptorIds, entry ∈ state.activations :=
    fun entry member => inv.logged entry (inv.order.subset member)
  have fresh : id ∉ state.lruAdaptorIds.erase id := inv.distinct.not_mem_erase
  have resorted : (updateLruPosition id state.lruAdaptorIds).Pairwise
      (UsedAfter (state.activations ++ [id])) := by
    rw [updateLruPosition_eq]
    exact sorted_append _ _ id (inv.sorted.sublist List.erase_sublist)
      (fun entry member => entries entry (List.mem_of_mem_erase member)) fresh
  obtain ⟨returned, registry⟩ := activate_registry host adapters id registered
    inv.toRegistryInvariant
  refine ⟨returned, ?_⟩
  rw [activateAdapter, if_pos registered] at registry ⊢
  dsimp only at registry ⊢
  by_cases active : state.activeAdapter = some id
  · -- the adapter is active and so already at the end of the list
    rw [updateLruPosition_eq, erase_append_last _ id inv.distinct (inv.last id active)] at resorted
    rw [if_pos active] at registry ⊢
    refine ⟨?_, active, rfl⟩
    exact {
      toRegistryInvariant := registry
      logged := fun other member => List.mem_append_left _ (inv.logged other member)
      sorted := resorted
      last := inv.last
      others := inv.others
      tensors := inv.tensors
      base := inv.base }
  · rw [if_neg active] at registry ⊢
    refine ⟨?_, rfl, rfl⟩
    exact {
      toRegistryInvariant := registry
      logged := fun other member => List.mem_append_left _ (inv.logged other member)
      sorted := resorted
      last := by
        intro other marked
        cases marked
        rw [updateLruPosition_eq, List.getLast?_concat]
      others := fun key present other =>
        activatedWeights_other host adapters keys shared id _ key present other
          (inv.others key present other)
      tensors := by
        intro other marked key present value found
        cases marked
        exact activatedWeights_tensor host adapters id _ key present value found
      base := fun marked => (Option.some_ne_none _ marked).elim }

def EvictionCompletes (capacity : Nat) (state : Manager V) : Prop :=
  capacity ≤ state.registeredAdapters.length → ∀ lru ∈ state.lruAdaptorIds.head?,
    state.activeAdapter = some lru → Completes host (adapters lru).keys

instance (capacity : Nat) (state : Manager V) :
    Decidable (EvictionCompletes host adapters capacity state) :=
  inferInstanceAs (Decidable (_ ≤ _ → _))

theorem addAdapter_cases (positive : 1 ≤ capacity) (id : Nat)
    (inv : RegistryInvariant capacity state) (fresh : id ∉ state.registeredAdapters)
    (complete : EvictionCompletes host adapters capacity state) :
    ∃ kept order,
      addAdapter host adapters capacity id state =
        ({ state with
            weights := resetKeys host
              (resetBy host adapters capacity state (.addAdapter id)) state.weights
            registeredAdapters := kept ++ [id]
            lruAdaptorIds := order ++ [id] }, some true) ∧
      order.Perm kept ∧ order.Sublist state.lruAdaptorIds ∧ kept.length < capacity ∧
      ∀ victim ∈ state.registeredAdapters, victim ∉ kept →
        state.lruAdaptorIds.head? = some victim := by
  rcases Nat.lt_or_ge state.registeredAdapters.length capacity with room | full
  · refine ⟨state.registeredAdapters, state.lruAdaptorIds, ?_, inv.order,
      List.Sublist.refl _, room, fun victim member gone => absurd member gone⟩
    rw [addAdapter_room host adapters id room, registerAdapter, if_neg fresh, resetBy,
      if_neg (Nat.not_le.mpr room), resetKeys_nil]
  · obtain ⟨lru, rest, order, member⟩ := inv.lru_cons positive full
    have permuted := inv.order
    rw [order] at permuted
    have distinct := inv.registered_nodup
    have gone : lru ∉ state.registeredAdapters.erase lru := distinct.not_mem_erase
    have unstuck : ¬ RemovalStuck host adapters { state with lruAdaptorIds := rest } lru :=
      fun stuck => stuck.2.2 (complete full lru (by rw [order]; rfl) stuck.2.1)
    have shorter := List.length_erase_of_mem member
    have some := List.length_pos_of_mem member
    have bounded := inv.bounded
    refine ⟨state.registeredAdapters.erase lru, rest, ?_,
      (List.cons_perm_iff_perm_erase.mp permuted).2, ?_, by omega, ?_⟩
    · have absent : id ∉ state.registeredAdapters.erase lru :=
        fun present => fresh (List.mem_of_mem_erase present)
      have cleared : resetBy host adapters capacity state (.addAdapter id) =
          removedKeys host adapters { state with lruAdaptorIds := rest } lru := by
        simp only [resetBy, if_pos full, order]
        rfl
      rw [addAdapter_full host adapters id lru rest full order, removeAdapter_eq, if_neg unstuck,
        Outcome.andThen, registerAdapter, cleared]
      simp only [List.erase_of_not_mem gone, if_neg absent]
    · rw [order]
      exact List.sublist_cons_self lru rest
    · intro victim present away
      have same : victim = lru := by
        by_contra apart
        exact away ((List.mem_erase_of_ne apart).mpr present)
      rw [order, same, List.head?_cons]

theorem load_eq (positive : 1 ≤ capacity) (id : Nat)
    (inv : RegistryInvariant capacity state) (fresh : id ∉ state.registeredAdapters)
    (complete : EvictionCompletes host adapters capacity state) :
    ∃ loaded kept order,
      addAdapter host adapters capacity id state = (loaded, some true) ∧
      activateAdapter host adapters id loaded =
        ({ weights := activatedWeights host adapters id (resetKeys host
            (resetBy host adapters capacity state (.addAdapter id)) state.weights)
           registeredAdapters := kept ++ [id]
           activeAdapter := some id
           lruAdaptorIds := order ++ [id]
           activations := state.activations ++ [id] }, some true) ∧
      order.Perm kept ∧ order.Sublist state.lruAdaptorIds ∧ kept.length < capacity ∧
      (∀ other ∈ kept, other ∈ state.registeredAdapters) ∧ id ∉ order ∧
      ∀ victim ∈ state.registeredAdapters, victim ∉ kept →
        state.lruAdaptorIds.head? = some victim := by
  obtain ⟨kept, order, added, permuted, sub, room, evicted⟩ :=
    addAdapter_cases host adapters positive id inv fresh complete
  have within : ∀ other ∈ kept, other ∈ state.registeredAdapters :=
    fun other member => inv.order.subset (sub.subset (permuted.symm.subset member))
  have unordered : id ∉ order := fun member => fresh (within id (permuted.subset member))
  have inactive : state.activeAdapter ≠ some id := fun marked => fresh (inv.active id marked)
  refine ⟨_, kept, order, added, ?_, permuted, sub, room, within, unordered, evicted⟩
  rw [activateAdapter, if_pos (List.mem_append_right _ List.mem_cons_self)]
  dsimp only
  rw [if_neg inactive, updateLruPosition_eq, List.erase_append_right _ unordered,
    List.erase_cons_head, List.append_nil]
  rfl

include shared in
theorem load_cache (positive : 1 ≤ capacity) (id : Nat)
    (inv : CacheInvariant host adapters capacity keys state)
    (fresh : id ∉ state.registeredAdapters)
    (complete : ∀ other, Completes host (adapters other).keys) :
    ∃ loaded,
      addAdapter host adapters capacity id state = (loaded, some true) ∧
      (activateAdapter host adapters id loaded).2 ≠ none ∧
      CacheInvariant host adapters capacity keys (activateAdapter host adapters id loaded).1 ∧
      (activateAdapter host adapters id loaded).1.activeAdapter = some id ∧
      (∀ other ∈ (activateAdapter host adapters id loaded).1.registeredAdapters,
        other ≠ id → other ∈ state.registeredAdapters) ∧
      ∀ victim ∈ state.registeredAdapters,
        victim ∉ (activateAdapter host adapters id loaded).1.registeredAdapters →
          ∀ other ∈ state.registeredAdapters, other ≠ victim →
            UsedAfter state.activations victim other := by
  obtain ⟨loaded, kept, order, added, activated, permuted, sub, room, within, unordered, evicted⟩ :=
    load_eq host adapters positive id inv.toRegistryInvariant fresh
      fun _ lru _ _ => complete lru
  refine ⟨loaded, added, ?_⟩
  rw [activated]
  refine ⟨Option.some_ne_none _, ?_, rfl, ?_, ?_⟩
  · exact {
      toRegistryInvariant := inv.toRegistryInvariant.extend id kept order permuted sub room
        unordered _ rfl rfl rfl
      logged := by
        intro other member
        rcases List.mem_append.mp member with old | new
        · exact List.mem_append_left _ (inv.logged other (within other old))
        · exact List.mem_append_right _ new
      sorted := sorted_append _ _ id (inv.sorted.sublist sub)
        (fun entry member => inv.logged entry (within entry (permuted.subset member))) unordered
      last := by
        intro other marked
        cases marked
        exact List.getLast?_concat
      others := fun key present other => by
        apply activatedWeights_other host adapters keys shared id _ key present other
        unfold resetKeys
        split
        · rfl
        · exact inv.others key present other
      tensors := by
        intro other marked key present value found
        cases marked
        exact activatedWeights_tensor host adapters id _ key present value found
      base := fun marked => (Option.some_ne_none _ marked).elim }
  · intro other member apart
    rcases List.mem_append.mp member with old | new
    · exact within other old
    · exact absurd (List.mem_singleton.mp new) apart
  · intro victim member gone other present apart
    have head := evicted victim member fun old => gone (List.mem_append_left _ old)
    obtain ⟨rest, split⟩ := List.head?_eq_some_iff.mp head
    have sorted := inv.sorted
    rw [split, List.pairwise_cons] at sorted
    have listed := inv.order.mem_iff.mpr present
    rw [split] at listed
    exact sorted.1 other ((List.mem_cons.mp listed).resolve_left apart)

variable {host adapters keys} in
theorem CacheInvariant.of_unmarked (inv : CacheInvariant host adapters capacity keys state)
    (after : Manager V) (registered : after.registeredAdapters = state.registeredAdapters)
    (lru : after.lruAdaptorIds = state.lruAdaptorIds)
    (activations : after.activations = state.activations) (active : after.activeAdapter = none)
    (others : ∀ key ∈ host.keys, key ∉ keys → after.weights key = host.initial key)
    (base : ∀ key ∈ host.keys, IsReset key → after.weights key = host.initial key) :
    CacheInvariant host adapters capacity keys after where
  toRegistryInvariant := inv.toRegistryInvariant.of_same after registered lru
    fun id marked => by rw [active] at marked; cases marked
  logged := by
    rw [registered, activations]
    exact inv.logged
  sorted := by
    rw [lru, activations]
    exact inv.sorted
  last := fun id marked => by rw [active] at marked; cases marked
  others := others
  tensors := fun id marked => by rw [active] at marked; cases marked
  base := fun _ => base

include shared in
theorem deactivateAll_cache (inv : CacheInvariant host adapters capacity keys state)
    (complete : ∀ other, Completes host (adapters other).keys) :
    (deactivateAllAdapters host adapters state).2 ≠ none ∧
      CacheInvariant host adapters capacity keys (deactivateAllAdapters host adapters state).1 ∧
      (deactivateAllAdapters host adapters state).1.activeAdapter = none ∧
      (deactivateAllAdapters host adapters state).1.registeredAdapters =
        state.registeredAdapters := by
  unfold deactivateAllAdapters
  cases active : state.activeAdapter with
  | none =>
      exact ⟨Option.some_ne_none _,
        inv.of_unmarked _ rfl rfl rfl rfl inv.others (inv.base active), rfl, rfl⟩
  | some id =>
      have reset := deactivateAdapter_eq host adapters state id (inv.active id active)
      rw [if_pos (complete id)] at reset
      dsimp only
      rw [reset]
      refine ⟨Option.some_ne_none _, inv.of_unmarked _ rfl rfl rfl rfl ?_ ?_, rfl, rfl⟩
      · intro key present other
        simp only [Outcome.andThen, Manager.reset, resetKeys]
        split
        · rfl
        · exact inv.others key present other
      · intro key present resets
        simp only [Outcome.andThen, Manager.reset, resetKeys]
        split
        · rfl
        · rename_i kept
          rw [mem_clearedKeys host _ (complete id), not_and_or] at kept
          have other := kept.resolve_right fun unreset => unreset resets
          exact inv.others key present fun member => other ((shared id key).mpr member)

end Cache

end ScalarLM.Adapter
