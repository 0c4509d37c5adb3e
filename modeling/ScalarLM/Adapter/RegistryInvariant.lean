import ScalarLM.Adapter.WeightInvariant
import ScalarLM.Lib.Transition

/-! Which calls keep the registry, the LRU list and the active marker together. -/

namespace ScalarLM.Adapter

open Transition

section Registry

variable {V : Type} {capacity : Nat} {state : Manager V}

structure RegistryInvariant (capacity : Nat) (state : Manager V) : Prop where
  bounded : state.registeredAdapters.length ≤ capacity
  distinct : state.lruAdaptorIds.Nodup
  order : state.lruAdaptorIds.Perm state.registeredAdapters
  active : ∀ id, state.activeAdapter = some id → id ∈ state.registeredAdapters

/-- A fresh adapter is added; a registered one is activated or deactivated. -/
def Admissible (state : Manager V) : Call → Prop
  | .addAdapter id => id ∉ state.registeredAdapters
  | .activateAdapter id => id ∈ state.registeredAdapters
  | .deactivateAdapter id => id ∈ state.registeredAdapters
  | _ => True

instance (state : Manager V) : ∀ call, Decidable (Admissible state call)
  | .addAdapter id => inferInstanceAs (Decidable (id ∉ state.registeredAdapters))
  | .activateAdapter id => inferInstanceAs (Decidable (id ∈ state.registeredAdapters))
  | .deactivateAdapter id => inferInstanceAs (Decidable (id ∈ state.registeredAdapters))
  | .removeAdapter _ | .deactivateAllAdapters | .removeAllAdapters => isTrue trivial

theorem RegistryInvariant.registered_nodup (inv : RegistryInvariant capacity state) :
    state.registeredAdapters.Nodup :=
  inv.order.nodup_iff.mp inv.distinct

theorem RegistryInvariant.of_same (inv : RegistryInvariant capacity state) (after : Manager V)
    (registered : after.registeredAdapters = state.registeredAdapters)
    (lru : after.lruAdaptorIds = state.lruAdaptorIds)
    (active : ∀ id, after.activeAdapter = some id → state.activeAdapter = some id) :
    RegistryInvariant capacity after := by
  refine ⟨?_, ?_, ?_, ?_⟩
  · rw [registered]
    exact inv.bounded
  · rw [lru]
    exact inv.distinct
  · rw [registered, lru]
    exact inv.order
  · intro id marked
    rw [registered]
    exact inv.active id (active id marked)

theorem updateLruPosition_perm (id : Nat) (lru : List Nat) (member : id ∈ lru) :
    (updateLruPosition id lru).Perm lru := by
  rw [updateLruPosition, if_pos member]
  exact (List.perm_append_singleton id _).trans (List.perm_cons_erase member).symm

theorem register_invariant (id : Nat) (state : Manager V) (fresh : id ∉ state.registeredAdapters)
    (room : state.registeredAdapters.length < capacity) (distinct : state.lruAdaptorIds.Nodup)
    (order : state.lruAdaptorIds.Perm state.registeredAdapters)
    (active : ∀ id, state.activeAdapter = some id → id ∈ state.registeredAdapters) :
    RegistryInvariant capacity (registerAdapter id state).1 := by
  have unlisted : id ∉ state.lruAdaptorIds := fun member => fresh (order.subset member)
  refine ⟨?_, ?_, ?_, ?_⟩
  · simp only [registerAdapter, if_neg fresh, List.length_append, List.length_singleton]
    omega
  · exact List.Nodup.append distinct (List.nodup_singleton id) (by simpa using unlisted)
  · simp only [registerAdapter, if_neg fresh]
    exact order.append_right [id]
  · intro other marked
    simp only [registerAdapter, if_neg fresh]
    exact List.mem_append_left _ (active other marked)

theorem RegistryInvariant.lru_cons (inv : RegistryInvariant capacity state)
    (positive : 1 ≤ capacity) (full : capacity ≤ state.registeredAdapters.length) :
    ∃ lru rest, state.lruAdaptorIds = lru :: rest ∧ lru ∈ state.registeredAdapters := by
  cases order : state.lruAdaptorIds with
  | nil =>
      have empty := inv.order.length_eq
      rw [order, List.length_nil] at empty
      omega
  | cons lru rest =>
      refine ⟨lru, rest, rfl, inv.order.subset ?_⟩
      rw [order]
      exact List.mem_cons_self

theorem RegistryInvariant.extend (inv : RegistryInvariant capacity state) (id : Nat)
    (kept order : List Nat) (permuted : order.Perm kept)
    (sub : order.Sublist state.lruAdaptorIds) (room : kept.length < capacity)
    (unordered : id ∉ order) (after : Manager V)
    (registered : after.registeredAdapters = kept ++ [id])
    (lru : after.lruAdaptorIds = order ++ [id]) (active : after.activeAdapter = some id) :
    RegistryInvariant capacity after := by
  refine ⟨?_, ?_, ?_, ?_⟩
  · rw [registered, List.length_append, List.length_singleton]
    omega
  · rw [lru]
    exact List.Nodup.append (inv.distinct.sublist sub) (List.nodup_singleton id)
      (by simpa using unordered)
  · rw [registered, lru]
    exact permuted.append_right [id]
  · intro other marked
    rw [active] at marked
    cases marked
    rw [registered]
    exact List.mem_append_right _ List.mem_cons_self

theorem evict_invariant (state : Manager V) (id lru : Nat) (rest : List Nat)
    (inv : RegistryInvariant capacity state) (order : state.lruAdaptorIds = lru :: rest)
    (fresh : id ∉ state.registeredAdapters)
    (inactive : state.activeAdapter ≠ some lru) :
    RegistryInvariant capacity
      (registerAdapter id { state with
        lruAdaptorIds := rest
        registeredAdapters := state.registeredAdapters.erase lru }).1 := by
  have permuted := inv.order
  rw [order] at permuted
  have member : lru ∈ state.registeredAdapters := permuted.subset List.mem_cons_self
  have distinct := inv.distinct
  rw [order, List.nodup_cons] at distinct
  have shorter := List.length_erase_of_mem member
  have some := List.length_pos_of_mem member
  have bounded := inv.bounded
  refine register_invariant id _ (fun present => fresh (List.mem_of_mem_erase present)) ?_
    distinct.2 (List.cons_perm_iff_perm_erase.mp permuted).2 ?_
  · dsimp only
    omega
  · intro other marked
    have apart : other ≠ lru := by
      intro same
      cases same
      exact inactive marked
    exact (List.mem_erase_of_ne apart).mpr (inv.active other marked)

end Registry

section Kept

variable {V : Type} [Zero V] (host : Host V) (adapters : Nat → Dict Key V) (capacity : Nat)

/-- The call returns and leaves the registry in order. -/
def RegistryKept (state : Manager V) (call : Call) : Prop :=
  (perform host adapters capacity state call).2 ≠ none ∧
    RegistryInvariant capacity (step host adapters capacity state call)

/-- A call that neither removes a registered adapter other than an inactive one by
eviction, nor deactivates an adapter with a key that the model lacks. -/
def Tidy (state : Manager V) : Call → Prop
  | .addAdapter _ => capacity ≤ state.registeredAdapters.length →
      ∀ lru ∈ state.lruAdaptorIds.head?, state.activeAdapter ≠ some lru
  | .activateAdapter _ => True
  | .deactivateAdapter id => Completes host (adapters id).keys
  | .removeAdapter id => id ∉ state.registeredAdapters
  | .deactivateAllAdapters => ∀ id ∈ state.activeAdapter, Completes host (adapters id).keys
  | .removeAllAdapters => state.registeredAdapters = []

instance (state : Manager V) : ∀ call, Decidable (Tidy host adapters capacity state call)
  | .addAdapter _ => inferInstanceAs (Decidable (_ ≤ _ → _))
  | .activateAdapter _ => isTrue trivial
  | .deactivateAdapter id => inferInstanceAs (Decidable (Completes host (adapters id).keys))
  | .removeAdapter _ => inferInstanceAs (Decidable (_ ∉ _))
  | .deactivateAllAdapters => inferInstanceAs (Decidable (∀ id ∈ state.activeAdapter, _))
  | .removeAllAdapters => inferInstanceAs (Decidable (_ = []))

variable {capacity} {state : Manager V}

theorem addAdapter_room (id : Nat) (room : state.registeredAdapters.length < capacity) :
    addAdapter host adapters capacity id state = registerAdapter id state :=
  if_neg (Nat.not_le.mpr room)

theorem addAdapter_full (id lru : Nat) (rest : List Nat)
    (full : capacity ≤ state.registeredAdapters.length)
    (order : state.lruAdaptorIds = lru :: rest) :
    addAdapter host adapters capacity id state =
      Outcome.andThen (removeAdapter host adapters lru { state with lruAdaptorIds := rest })
        (registerAdapter id) := by
  rw [addAdapter, if_pos full]
  simp only [order]

theorem removeAdapter_inactive (state : Manager V) (id : Nat)
    (distinct : state.registeredAdapters.Nodup)
    (inactive : state.activeAdapter ≠ some id) :
    removeAdapter host adapters id state =
      ({ state with registeredAdapters := state.registeredAdapters.erase id }, some false) := by
  have gone : id ∉ state.registeredAdapters.erase id := distinct.not_mem_erase
  have kept : removedKeys host adapters state id = [] := if_neg fun both => inactive both.2
  rw [removeAdapter_eq, if_neg (fun stuck => inactive stuck.2.1), kept, resetKeys_nil,
    List.erase_of_not_mem gone, decide_eq_false gone]

theorem activate_registry (id : Nat) (registered : id ∈ state.registeredAdapters)
    (inv : RegistryInvariant capacity state) :
    (activateAdapter host adapters id state).2 ≠ none ∧
      RegistryInvariant capacity (activateAdapter host adapters id state).1 := by
  rw [activateAdapter, if_pos registered]
  dsimp only
  split
  · exact ⟨Option.some_ne_none _, inv.of_same _ rfl rfl fun _ marked => marked⟩
  · have permuted := updateLruPosition_perm id _ (inv.order.mem_iff.mpr registered)
    refine ⟨Option.some_ne_none _, inv.bounded, permuted.nodup_iff.mpr inv.distinct,
      permuted.trans inv.order, ?_⟩
    intro other marked
    cases marked
    exact registered

section Calls

variable (inv : RegistryInvariant capacity state)

include inv

/-- Evicting the active adapter leaves the marker behind. -/
theorem addAdapter_kept_iff (positive : 1 ≤ capacity) (id : Nat)
    (fresh : id ∉ state.registeredAdapters) :
    RegistryKept host adapters capacity state (.addAdapter id) ↔
      Tidy host adapters capacity state (.addAdapter id) := by
  have distinct := inv.registered_nodup
  simp only [RegistryKept, step, perform, Tidy]
  rcases Nat.lt_or_ge state.registeredAdapters.length capacity with room | full
  · rw [addAdapter_room host adapters id room]
    refine ⟨fun _ full => absurd full (by omega), fun _ => ⟨Option.some_ne_none _, ?_⟩⟩
    exact register_invariant id state fresh room inv.distinct inv.order inv.active
  · obtain ⟨lru, rest, order, member⟩ := inv.lru_cons positive full
    rw [addAdapter_full host adapters id lru rest full order]
    constructor
    · intro kept _ other head active
      obtain ⟨returned, after⟩ := kept
      rw [order] at head
      obtain rfl := Option.some.inj head
      rw [removeAdapter_eq] at returned after
      split at returned
      · exact returned rfl
      · rename_i loose
        rw [if_neg loose] at after
        have marked := after.active lru active
        have gone : lru ∉ (state.registeredAdapters.erase lru).erase lru :=
          fun present => distinct.not_mem_erase (List.mem_of_mem_erase present)
        simp only [Outcome.andThen, registerAdapter] at marked
        split at marked
        · exact gone marked
        · rcases List.mem_append.mp marked with present | new
          · exact gone present
          · exact fresh (List.mem_singleton.mp new ▸ member)
    · intro tidy
      have inactive := tidy full lru (by rw [order]; rfl)
      rw [removeAdapter_inactive host adapters { state with lruAdaptorIds := rest } lru
        distinct inactive]
      exact ⟨Option.some_ne_none _, evict_invariant state id lru rest inv order fresh inactive⟩

theorem deactivateAdapter_kept_iff (id : Nat) (registered : id ∈ state.registeredAdapters) :
    RegistryKept host adapters capacity state (.deactivateAdapter id) ↔
      Tidy host adapters capacity state (.deactivateAdapter id) := by
  simp only [RegistryKept, step, perform, Tidy]
  rw [deactivateAdapter_eq host adapters state id registered]
  refine ⟨fun kept => ?_, fun complete => ⟨?_, inv.of_same _ rfl rfl fun _ marked => marked⟩⟩
  · by_contra stuck
    exact kept.1 (if_neg stuck)
  · rw [if_pos complete]
    exact Option.some_ne_none _

/-- The LRU list keeps a removed adapter. -/
theorem removeAdapter_kept_iff (id : Nat) :
    RegistryKept host adapters capacity state (.removeAdapter id) ↔
      Tidy host adapters capacity state (.removeAdapter id) := by
  have distinct := inv.registered_nodup
  simp only [RegistryKept, step, perform, Tidy]
  constructor
  · intro kept member
    obtain ⟨returned, after⟩ := kept
    rw [removeAdapter_eq] at returned after
    split at returned
    · exact returned rfl
    · rename_i loose
      rw [if_neg loose] at after
      have present := after.order.subset (inv.order.mem_iff.mpr member)
      exact distinct.not_mem_erase (List.mem_of_mem_erase present)
  · intro absent
    have inactive : state.activeAdapter ≠ some id := fun marked => absent (inv.active id marked)
    rw [removeAdapter_inactive host adapters state id distinct inactive,
      List.erase_of_not_mem absent]
    exact ⟨Option.some_ne_none _, inv.of_same _ rfl rfl fun _ marked => marked⟩

theorem deactivateAllAdapters_kept_iff :
    RegistryKept host adapters capacity state .deactivateAllAdapters ↔
      Tidy host adapters capacity state .deactivateAllAdapters := by
  simp only [RegistryKept, step, perform, Tidy, deactivateAllAdapters]
  cases active : state.activeAdapter with
  | none =>
      refine ⟨fun _ _ marked => (Option.not_mem_none _ marked).elim,
        fun _ => ⟨Option.some_ne_none _, ?_⟩⟩
      exact inv.of_same _ rfl rfl fun _ marked => (Option.some_ne_none _ marked.symm).elim
  | some id =>
      simp only [deactivateAdapter_eq host adapters state id (inv.active id active),
        Option.mem_some, forall_eq']
      by_cases complete : Completes host (adapters id).keys
      · rw [if_pos complete]
        refine ⟨fun _ => complete, fun _ => ⟨Option.some_ne_none _, ?_⟩⟩
        exact inv.of_same _ rfl rfl fun _ marked => (Option.some_ne_none _ marked.symm).elim
      · rw [if_neg complete]
        exact ⟨fun kept => absurd rfl kept.1, fun all => absurd all complete⟩

/-- The LRU list is left as it was. -/
theorem removeAllAdapters_kept_iff :
    RegistryKept host adapters capacity state .removeAllAdapters ↔
      Tidy host adapters capacity state .removeAllAdapters := by
  simp only [RegistryKept, step, perform, Tidy, removeAllAdapters,
    deactivateEach_eq host adapters state _ (fun id member => member)]
  constructor
  · intro kept
    obtain ⟨returned, after⟩ := kept
    split at returned
    · rename_i complete
      rw [if_pos complete] at after
      have empty : state.lruAdaptorIds.Perm [] := after.order
      exact List.perm_nil.mp (inv.order.symm.trans empty)
    · exact absurd rfl returned
  · intro empty
    have complete : ∀ id ∈ state.registeredAdapters, Completes host (adapters id).keys := by
      rw [empty]
      exact List.forall_mem_nil _
    rw [if_pos complete]
    refine ⟨Option.some_ne_none _, inv.of_same _ empty.symm rfl fun _ marked => ?_⟩
    exact (Option.some_ne_none _ marked.symm).elim

/-- Under the invariant the tidy calls are those that keep it and do not raise. -/
theorem registryKept_iff (positive : 1 ≤ capacity) (call : Call)
    (inside : Admissible state call) :
    RegistryKept host adapters capacity state call ↔ Tidy host adapters capacity state call := by
  cases call with
  | addAdapter id => exact addAdapter_kept_iff host adapters inv positive id inside
  | activateAdapter id =>
      simp only [RegistryKept, step, perform, Tidy, iff_true]
      exact activate_registry host adapters id inside inv
  | deactivateAdapter id => exact deactivateAdapter_kept_iff host adapters inv id inside
  | removeAdapter id => exact removeAdapter_kept_iff host adapters inv id
  | deactivateAllAdapters => exact deactivateAllAdapters_kept_iff host adapters inv
  | removeAllAdapters => exact removeAllAdapters_kept_iff host adapters inv

end Calls

variable (capacity) in
theorem initial_registry : RegistryInvariant capacity (initialManager host) where
  bounded := Nat.zero_le _
  distinct := List.nodup_nil
  order := List.Perm.refl []
  active := fun _ marked => (Option.some_ne_none _ marked.symm).elim

/-- In a run that adds fresh adapters and touches registered ones, no call raises and
the registry stays in order exactly when all calls are tidy. -/
theorem registry_invariant_iff (positive : 1 ≤ capacity) (calls : List Call)
    (inside : AllSteps (step host adapters capacity) Admissible (initialManager host) calls) :
    AllSteps (step host adapters capacity) (RegistryKept host adapters capacity)
        (initialManager host) calls ↔
      AllSteps (step host adapters capacity) (Tidy host adapters capacity)
        (initialManager host) calls := by
  refine allSteps_iff _ (RegistryInvariant capacity) Admissible _ _ ?_ ?_ _ _
    (initial_registry host capacity) inside
  · intro state call inv within
    exact registryKept_iff host adapters inv positive call within
  · intro state call _ _ kept
    exact kept.2

end Kept

/-- Two adapters alternate, a third takes the place of the first. -/
theorem registry_kept_three_adapters :
    AllSteps (step smallHost smallAdapters 2) (RegistryKept smallHost smallAdapters 2)
      (initialManager smallHost)
      [.addAdapter 1, .activateAdapter 1, .addAdapter 2, .activateAdapter 2, .addAdapter 3,
        .deactivateAllAdapters] :=
  (registry_invariant_iff smallHost smallAdapters (by decide) _ (by decide)).mpr (by decide)

/-- The removed adapter stays in the LRU list. -/
theorem registry_invariant_fails :
    ¬ ∀ (host : Host Int) (adapters : Nat → Dict Key Int) (capacity : Nat) (calls : List Call),
      1 ≤ capacity →
      AllSteps (step host adapters capacity) Admissible (initialManager host) calls →
        AllSteps (step host adapters capacity) (RegistryKept host adapters capacity)
          (initialManager host) calls := by
  intro claimed
  obtain ⟨_, ⟨_, last⟩, _⟩ := claimed smallHost smallAdapters 4 [.addAdapter 1, .removeAdapter 1]
    (by decide) (by decide)
  exact absurd last.order.length_eq (by decide)

end ScalarLM.Adapter
