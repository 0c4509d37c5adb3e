import ScalarLM.Adapter.CacheInvariant
import ScalarLM.Adapter.WorkerManager

/-! Batches of adapter requests, served one after the other. -/

namespace ScalarLM.Adapter

open Transition

section Mapping

theorem reverseMapping_get? (mapping : Dict Nat Nat)
    (injective : ∀ left right id, (left, id) ∈ mapping → (right, id) ∈ mapping → left = right)
    (id request : Nat) :
    (reverseMapping mapping).get? id = some request ↔ (request, id) ∈ mapping := by
  rw [Dict.get?_eq_some_iff, reverseMapping, Dict.mem_ofAssignments, List.mem_map]
  · constructor
    · intro given
      rcases given with ⟨⟨name, target⟩, member, equal⟩
      obtain ⟨rfl, rfl⟩ := Prod.mk.inj equal
      exact member
    · intro member
      exact ⟨(request, id), member, rfl⟩
  · intro key left right hl hr
    obtain ⟨⟨first, target⟩, memberFirst, equalFirst⟩ := List.mem_map.mp hl
    obtain ⟨⟨second, target'⟩, memberSecond, equalSecond⟩ := List.mem_map.mp hr
    obtain ⟨rfl, rfl⟩ := Prod.mk.inj equalFirst
    obtain ⟨same, rfl⟩ := Prod.mk.inj equalSecond
    dsimp only at same memberFirst memberSecond
    subst same
    exact injective _ _ _ memberFirst memberSecond

variable {V : Type} {worker : Worker V}

/-- Every registered adapter has exactly one request that maps to it, and ids are
never issued twice. -/
structure MappingInvariant (worker : Worker V) : Prop where
  injective : ∀ left right id, (left, id) ∈ worker.adaptorMapping →
    (right, id) ∈ worker.adaptorMapping → left = right
  covered : ∀ id ∈ worker.manager.registeredAdapters,
    ∃ request, (request, id) ∈ worker.adaptorMapping
  issued : ∀ request id, (request, id) ∈ worker.adaptorMapping → id ≤ worker.globalLoraId

theorem initial_mapping [Zero V] (host : Host V) : MappingInvariant (initialWorker host) where
  injective := fun _ _ _ member => (Dict.not_mem_empty _ member).elim
  covered := fun _ member => (List.not_mem_nil member).elim
  issued := fun _ _ member => (Dict.not_mem_empty _ member).elim

theorem MappingInvariant.fresh (inv : MappingInvariant worker) :
    worker.globalLoraId + 1 ∉ worker.manager.registeredAdapters := by
  intro registered
  obtain ⟨request, mapped⟩ := inv.covered _ registered
  have issued := inv.issued request _ mapped
  omega

theorem MappingInvariant.of_subset (inv : MappingInvariant worker) (manager : Manager V)
    (within : ∀ id ∈ manager.registeredAdapters, id ∈ worker.manager.registeredAdapters) :
    MappingInvariant { worker with manager := manager } where
  injective := inv.injective
  covered := fun id member => inv.covered id (within id member)
  issued := inv.issued

theorem MappingInvariant.load (inv : MappingInvariant worker) (request : Nat) (manager : Manager V)
    (unknown : ∀ id ∈ worker.manager.registeredAdapters, (request, id) ∉ worker.adaptorMapping)
    (within : ∀ id ∈ manager.registeredAdapters, id ≠ worker.globalLoraId + 1 →
      id ∈ worker.manager.registeredAdapters) :
    MappingInvariant { loadAdapter request worker with manager := manager } where
  injective := by
    intro left right id hl hr
    rcases (Dict.mem_set _ _ _ _ _).mp hl with ⟨rfl, rfl⟩ | ⟨_, oldLeft⟩
    · rcases (Dict.mem_set _ _ _ _ _).mp hr with ⟨rfl, _⟩ | ⟨_, oldRight⟩
      · rfl
      · have issued := inv.issued _ _ oldRight
        omega
    · rcases (Dict.mem_set _ _ _ _ _).mp hr with ⟨rfl, rfl⟩ | ⟨_, oldRight⟩
      · have issued := inv.issued _ _ oldLeft
        omega
      · exact inv.injective left right id oldLeft oldRight
  covered := by
    intro id member
    by_cases new : id = worker.globalLoraId + 1
    · exact ⟨request, (Dict.mem_set _ _ _ _ _).mpr (Or.inl ⟨rfl, new⟩)⟩
    · have before := within id member new
      obtain ⟨other, mapped⟩ := inv.covered id before
      have apart : other ≠ request := by
        intro same
        cases same
        exact unknown id before mapped
      exact ⟨other, (Dict.mem_set _ _ _ _ _).mpr (Or.inr ⟨apart, mapped⟩)⟩
  issued := by
    intro other id member
    rcases (Dict.mem_set _ _ _ _ _).mp member with ⟨_, rfl⟩ | ⟨_, before⟩
    · exact Nat.le_refl _
    · exact Nat.le_succ_of_le (inv.issued other id before)

theorem listAdapters_eq (inv : MappingInvariant worker) :
    ∃ existing, listAdapters worker = some existing ∧
      ∀ request, request ∈ existing ↔
        ∃ id ∈ worker.manager.registeredAdapters, (request, id) ∈ worker.adaptorMapping := by
  have found := reverseMapping_get? worker.adaptorMapping inv.injective
  have complete : (listAdapters worker).isSome := by
    rw [listAdapters, collect_isSome_iff]
    intro id registered
    obtain ⟨request, member⟩ := inv.covered id registered
    rw [(found id request).mpr member]
    rfl
  obtain ⟨existing, run⟩ := Option.isSome_iff_exists.mp complete
  refine ⟨existing, run, ?_⟩
  intro request
  rw [mem_collect _ _ _ run]
  refine exists_congr fun id => and_congr_right fun registered => ?_
  rw [← found id request]
  constructor
  · intro given
    rcases given with ⟨here, produced, member⟩
    obtain ⟨other, hit, rfl⟩ := Option.map_eq_some_iff.mp produced
    rw [List.mem_singleton.mp member]
    exact hit
  · intro hit
    exact ⟨[request], by rw [hit]; rfl, List.mem_cons_self⟩

def Activated (request : Option Nat) (worker : Worker V) : Prop :=
  match request with
  | some request => ∃ id, worker.adaptorMapping.get? request = some id ∧
      worker.manager.activeAdapter = some id
  | none => worker.manager.activeAdapter = none

/-- Only one request can be the active one. -/
theorem activated_unique (inv : MappingInvariant worker) (left right : Option Nat)
    (hl : Activated left worker) (hr : Activated right worker) : left = right := by
  cases left with
  | none =>
      cases right with
      | none => rfl
      | some right =>
          obtain ⟨id, _, active⟩ := hr
          exact absurd (hl.symm.trans active) (Option.some_ne_none _).symm
  | some left =>
      obtain ⟨id, mapped, active⟩ := hl
      cases right with
      | none => exact absurd (hr.symm.trans active) (Option.some_ne_none _).symm
      | some right =>
          obtain ⟨other, mapped', active'⟩ := hr
          obtain rfl := Option.some.inj (active.symm.trans active')
          rw [inv.injective left right id ((Dict.get?_eq_some_iff _ _ _).mp mapped)
            ((Dict.get?_eq_some_iff _ _ _).mp mapped')]

variable [Zero V] (host : Host V) (adapters : Nat → Dict Key V) (capacity : Nat)

theorem serve_known (inv : MappingInvariant worker) (request id : Nat)
    (registered : id ∈ worker.manager.registeredAdapters)
    (mapped : (request, id) ∈ worker.adaptorMapping) :
    serve host adapters capacity (some request) worker =
      worker.lift (activateAdapter host adapters id worker.manager) := by
  obtain ⟨existing, listed, content⟩ := listAdapters_eq inv
  have known := (content request).mpr ⟨id, registered, mapped⟩
  have found := (Dict.get?_eq_some_iff worker.adaptorMapping request id).mpr mapped
  simp only [serve, addAdapterWorker, listed, if_pos known, WorkerOutcome.andThen, activateRequest,
    found]

/-- A request without a registered adapter adds one under the next id and activates
it, twice. -/
theorem serve_unknown (inv : MappingInvariant worker) (request : Nat)
    (unknown : ∀ id ∈ worker.manager.registeredAdapters, (request, id) ∉ worker.adaptorMapping)
    (loaded : Manager V) (value : Bool)
    (added : addAdapter host adapters capacity (worker.globalLoraId + 1) worker.manager =
      (loaded, some value))
    (activated : (activateAdapter host adapters (worker.globalLoraId + 1) loaded).2 ≠ none) :
    serve host adapters capacity (some request) worker =
      Worker.lift
        { loadAdapter request worker with
          manager := (activateAdapter host adapters (worker.globalLoraId + 1) loaded).1 }
        (activateAdapter host adapters (worker.globalLoraId + 1)
          (activateAdapter host adapters (worker.globalLoraId + 1) loaded).1) := by
  obtain ⟨existing, listed, content⟩ := listAdapters_eq inv
  have absent : request ∉ existing := fun member => by
    obtain ⟨id, registered, mapped⟩ := (content request).mp member
    exact unknown id registered mapped
  obtain ⟨first, firstEq⟩ := Option.ne_none_iff_exists'.mp activated
  simp only [serve, addAdapterWorker, listed, if_neg absent, loadAdapter, Worker.lift, added,
    WorkerOutcome.andThen, firstEq, Option.map_some, activateRequest, Dict.get?_set, if_true]

theorem serve_unknown_raises (inv : MappingInvariant worker) (request : Nat)
    (unknown : ∀ id ∈ worker.manager.registeredAdapters, (request, id) ∉ worker.adaptorMapping)
    (raised : (addAdapter host adapters capacity (worker.globalLoraId + 1) worker.manager).2 =
      none) : (serve host adapters capacity (some request) worker).2 = none := by
  obtain ⟨existing, listed, content⟩ := listAdapters_eq inv
  have absent : request ∉ existing := fun member => by
    obtain ⟨id, registered, mapped⟩ := (content request).mp member
    exact unknown id registered mapped
  simp only [serve, addAdapterWorker, listed, if_neg absent, loadAdapter, Worker.lift, raised,
    WorkerOutcome.andThen]

theorem serveEach_cons (request : Option Nat) (rest : List (Option Nat)) (worker : Worker V)
    (returned : (serve host adapters capacity request worker).2 ≠ none) :
    serveEach host adapters capacity (request :: rest) worker =
      serveEach host adapters capacity rest (serve host adapters capacity request worker).1 := by
  rw [serveEach]
  cases outcome : serve host adapters capacity request worker with
  | mk after value =>
      cases value with
      | none => exact absurd (by rw [outcome]) returned
      | some value => rfl

theorem serveEach_cons_raises (request : Option Nat) (rest : List (Option Nat)) (worker : Worker V)
    (raised : (serve host adapters capacity request worker).2 = none) :
    serveEach host adapters capacity (request :: rest) worker =
      serve host adapters capacity request worker := by
  rw [serveEach]
  cases outcome : serve host adapters capacity request worker with
  | mk after value =>
      rw [outcome] at raised
      dsimp only at raised
      rw [raised]
      rfl

end Mapping

section Serving

variable {V : Type} [Zero V] (host : Host V) (adapters : Nat → Dict Key V) (capacity : Nat)
  (keys : List Key)

/-- The worker between batches when all adapters have the same keys. -/
structure WorkerInvariant (worker : Worker V) : Prop extends MappingInvariant worker where
  cache : CacheInvariant host adapters capacity keys worker.manager

/-- Whatever the step took out of the registry had been activated least recently. -/
def EvictsLeastRecent (before after : Manager V) : Prop :=
  ∀ victim ∈ before.registeredAdapters, victim ∉ after.registeredAdapters →
    ∀ other ∈ before.registeredAdapters, other ≠ victim →
      UsedAfter before.activations victim other

variable {capacity} {keys} {worker : Worker V}

variable (shared : ∀ id key, key ∈ (adapters id).keys ↔ key ∈ keys)

include shared in
theorem serve_request (positive : 1 ≤ capacity)
    (complete : ∀ id, Completes host (adapters id).keys) (request : Nat)
    (inv : WorkerInvariant host adapters capacity keys worker) :
    (serve host adapters capacity (some request) worker).2 ≠ none ∧
      WorkerInvariant host adapters capacity keys
        (serve host adapters capacity (some request) worker).1 ∧
      Activated (some request) (serve host adapters capacity (some request) worker).1 ∧
      EvictsLeastRecent worker.manager
        (serve host adapters capacity (some request) worker).1.manager := by
  by_cases known : ∃ id ∈ worker.manager.registeredAdapters, (request, id) ∈ worker.adaptorMapping
  · obtain ⟨id, registered, mapped⟩ := known
    obtain ⟨returned, cache, active, same⟩ :=
      activate_cache host adapters keys shared id registered inv.cache
    rw [serve_known host adapters capacity inv.toMappingInvariant request id registered mapped]
    refine ⟨returned, ?_, ⟨id, (Dict.get?_eq_some_iff _ _ _).mpr mapped, active⟩, ?_⟩
    · exact {
        toMappingInvariant := inv.toMappingInvariant.of_subset _ fun other member => by
          rw [same] at member
          exact member
        cache := cache }
    · intro victim member gone
      simp only [Worker.lift, same] at gone
      exact absurd member gone
  · have unknown : ∀ id ∈ worker.manager.registeredAdapters,
        (request, id) ∉ worker.adaptorMapping :=
      fun id registered mapped => known ⟨id, registered, mapped⟩
    obtain ⟨loaded, added, first, loadedCache, marked, old, evicted⟩ :=
      load_cache host adapters keys shared positive _ inv.cache inv.fresh complete
    obtain ⟨returned, cache, active, same⟩ :=
      activate_cache host adapters keys shared _ (loadedCache.active _ marked) loadedCache
    rw [serve_unknown host adapters capacity inv.toMappingInvariant request unknown loaded true
      added first]
    refine ⟨returned, ?_, ⟨worker.globalLoraId + 1, ?_, active⟩, ?_⟩
    · exact {
        toMappingInvariant := inv.toMappingInvariant.load request _ unknown fun id member => by
          rw [same] at member
          exact old id member
        cache := cache }
    · exact (Dict.get?_set _ _ _ _).trans (if_pos rfl)
    · intro victim member gone
      simp only [Worker.lift, same] at gone
      exact evicted victim member gone

include shared in
/-- One request keeps the invariant, does not raise, leaves its adapter active and
evicts nothing but the least recently activated adapter. -/
theorem serve_keeps (positive : 1 ≤ capacity)
    (complete : ∀ id, Completes host (adapters id).keys) (request : Option Nat)
    (inv : WorkerInvariant host adapters capacity keys worker) :
    (serve host adapters capacity request worker).2 ≠ none ∧
      WorkerInvariant host adapters capacity keys
        (serve host adapters capacity request worker).1 ∧
      Activated request (serve host adapters capacity request worker).1 ∧
      EvictsLeastRecent worker.manager (serve host adapters capacity request worker).1.manager := by
  cases request with
  | some request => exact serve_request host adapters shared positive complete request inv
  | none =>
      obtain ⟨returned, cache, active, same⟩ :=
        deactivateAll_cache host adapters keys shared inv.cache complete
      refine ⟨returned, ?_, active, ?_⟩
      · exact {
          toMappingInvariant := inv.toMappingInvariant.of_subset _ fun id member => by
            rw [same] at member
            exact member
          cache := cache }
      · intro victim member gone
        simp only [serve, Worker.lift, same] at gone
        exact absurd member gone

include shared in
theorem serveEach_keeps (positive : 1 ≤ capacity)
    (complete : ∀ id, Completes host (adapters id).keys) (batch : List (Option Nat))
    (worker : Worker V) (inv : WorkerInvariant host adapters capacity keys worker) :
    (serveEach host adapters capacity batch worker).2 ≠ none ∧
      WorkerInvariant host adapters capacity keys
        (serveEach host adapters capacity batch worker).1 ∧
      ∀ request, batch.getLast? = some request →
        Activated request (serveEach host adapters capacity batch worker).1 := by
  induction batch generalizing worker with
  | nil => exact ⟨Option.some_ne_none _, inv, fun _ last => (Option.some_ne_none _ last.symm).elim⟩
  | cons request rest ih =>
      obtain ⟨returned, kept, activated, _⟩ :=
        serve_keeps host adapters shared positive complete request inv
      obtain ⟨returned', kept', last⟩ := ih _ kept
      rw [serveEach_cons host adapters capacity request rest worker returned]
      refine ⟨returned', kept', ?_⟩
      intro final position
      cases rest with
      | nil =>
          obtain rfl := Option.some.inj position
          exact activated
      | cons next more =>
          rw [List.getLast?_cons_cons] at position
          exact last final position

end Serving

section Batches

variable {V : Type} [Zero V] (host : Host V) (adapters : Nat → Dict Key V) (capacity : Nat)

def serveBatch (worker : Worker V) (batch : List (Option Nat)) : Worker V :=
  (manageTokenformerAdapters host adapters capacity batch worker).1

/-- The batch is served: no call of it raises, the mapping and the registry are in
order afterwards, evictions took the least recently activated adapters, and the
weights are those of the last request. -/
structure BatchServed (worker : Worker V) (batch : List (Option Nat)) : Prop where
  returns : (manageTokenformerAdapters host adapters capacity batch worker).2 ≠ none
  injective : ∀ left right id,
    (left, id) ∈ (serveBatch host adapters capacity worker batch).adaptorMapping →
    (right, id) ∈ (serveBatch host adapters capacity worker batch).adaptorMapping → left = right
  covered : ∀ id ∈ (serveBatch host adapters capacity worker batch).manager.registeredAdapters,
    ∃ request, (request, id) ∈ (serveBatch host adapters capacity worker batch).adaptorMapping
  bounded :
    (serveBatch host adapters capacity worker batch).manager.registeredAdapters.length ≤ capacity
  evicts : ∀ front request back, batch = front ++ request :: back →
    EvictsLeastRecent (serveEach host adapters capacity front worker).1.manager
      (serve host adapters capacity request
        (serveEach host adapters capacity front worker).1).1.manager
  overlaid : ∀ request, batch.getLast? = some (some request) → ∃ id,
    (serveBatch host adapters capacity worker batch).adaptorMapping.get? request = some id ∧
      ∀ key ∈ host.keys, (serveBatch host adapters capacity worker batch).manager.weights key =
        ((adapters id).get? key).getD (host.initial key)
  restored : (∀ request, batch.getLast? ≠ some (some request)) → ∀ key ∈ host.keys,
    (IsTokenformerP key →
      (serveBatch host adapters capacity worker batch).manager.weights key = 0) ∧
    (IsLmHead key → (serveBatch host adapters capacity worker batch).manager.weights key =
      host.initial key)

variable {capacity} {keys : List Key}
  (shared : ∀ id key, key ∈ (adapters id).keys ↔ key ∈ keys)

include shared in
theorem batch_activated (positive : 1 ≤ capacity)
    (complete : ∀ id, Completes host (adapters id).keys) (worker : Worker V)
    (inv : WorkerInvariant host adapters capacity keys worker) (batch : List (Option Nat)) :
    (manageTokenformerAdapters host adapters capacity batch worker).2 ≠ none ∧
      WorkerInvariant host adapters capacity keys
        (serveBatch host adapters capacity worker batch) ∧
      Activated (batch.getLast?.join) (serveBatch host adapters capacity worker batch) := by
  unfold serveBatch manageTokenformerAdapters
  by_cases empty : batch.length = 0
  · obtain rfl := List.length_eq_zero_iff.mp empty
    obtain ⟨returned, kept, activated, _⟩ :=
      serve_keeps host adapters shared positive complete none inv
    exact ⟨returned, kept, activated⟩
  · rw [if_neg empty]
    obtain ⟨returned, kept, last⟩ :=
      serveEach_keeps host adapters shared positive complete batch worker inv
    refine ⟨returned, kept, ?_⟩
    cases final : batch.getLast? with
    | none =>
        exact absurd (List.getLast?_eq_none_iff.mp final) (List.ne_nil_of_length_pos (by omega))
    | some request => exact last request final

include shared in
theorem batch_served (positive : 1 ≤ capacity)
    (complete : ∀ id, Completes host (adapters id).keys) (worker : Worker V)
    (inv : WorkerInvariant host adapters capacity keys worker) (batch : List (Option Nat)) :
    BatchServed host adapters capacity worker batch := by
  obtain ⟨returned, kept, activated⟩ :=
    batch_activated host adapters shared positive complete worker inv batch
  have cache := kept.cache
  refine ⟨returned, kept.injective, kept.covered, cache.bounded, ?_, ?_, ?_⟩
  · intro front request back _
    obtain ⟨_, before, _⟩ := serveEach_keeps host adapters shared positive complete front worker inv
    exact (serve_keeps host adapters shared positive complete request before).2.2.2
  · intro request final
    rw [final] at activated
    obtain ⟨id, mapped, active⟩ := activated
    refine ⟨id, mapped, ?_⟩
    intro key present
    cases found : (adapters id).get? key with
    | some value => exact cache.tensors id active key present value found
    | none =>
        apply cache.others key present
        intro member
        exact (Dict.get?_eq_none_iff_not_mem_keys _ _).mp found ((shared id key).mpr member)
  · intro idle key present
    have inactive : (serveBatch host adapters capacity worker batch).manager.activeAdapter =
        none := by
      cases final : batch.getLast? with
      | none =>
          rw [final] at activated
          exact activated
      | some request =>
          cases request with
          | none =>
              rw [final] at activated
              exact activated
          | some request => exact absurd final (idle request)
    refine ⟨fun tokenformer => ?_, fun head => ?_⟩
    · rw [cache.base inactive key present (Or.inl tokenformer),
        host.zeroed key present tokenformer]
    · exact cache.base inactive key present (Or.inr head)

theorem initial_worker : WorkerInvariant host adapters capacity keys (initialWorker host) where
  toMappingInvariant := initial_mapping host
  cache := initial_cache host adapters keys

theorem first_batch (positive : 1 ≤ capacity) :
    (serveBatch host adapters capacity (initialWorker host) [some 0]).manager.activeAdapter =
        some 1 ∧
      (serveBatch host adapters capacity (initialWorker host)
        [some 0]).manager.registeredAdapters = [1] := by
  have room : ¬ capacity ≤ 0 := by omega
  simp [serveBatch, manageTokenformerAdapters, serveEach, serve, addAdapterWorker, listAdapters,
    collect, initialWorker, initialManager, loadAdapter, Worker.lift, addAdapter, registerAdapter,
    activateAdapter, activateRequest, WorkerOutcome.andThen, room, Dict.get?_set]

include shared in
/-- All sequences of batches are served exactly when the model has every
`tokenformer_p` and `lm_head` key of the adapters. -/
theorem batches_served_iff (positive : 1 ≤ capacity) :
    (∀ batches, AllSteps (serveBatch host adapters capacity) (BatchServed host adapters capacity)
        (initialWorker host) batches) ↔
      ∀ key ∈ keys, IsTokenformerP key ∨ IsLmHead key → key ∈ host.keys := by
  constructor
  · intro served key member resets
    by_contra missing
    obtain ⟨_, second, _⟩ := served [[some 0], []]
    obtain ⟨active, registered⟩ := first_batch host adapters positive
    have stuck : ¬ Completes host (adapters 1).keys :=
      fun complete => missing (complete key ((shared 1 key).mpr member) resets)
    have raised : (manageTokenformerAdapters host adapters capacity []
        (serveBatch host adapters capacity (initialWorker host) [some 0])).2 = none := by
      rw [manageTokenformerAdapters, if_pos List.length_nil, Worker.lift, deactivateAllAdapters,
        active]
      dsimp only
      rw [deactivateAdapter_eq _ _ _ _ (by rw [registered]; exact List.mem_cons_self),
        if_neg stuck]
      rfl
    exact second.returns raised
  · intro present batches
    have complete : ∀ id, Completes host (adapters id).keys :=
      fun id key member => present key ((shared id key).mp member)
    refine allSteps_of_invariant _ (WorkerInvariant host adapters capacity keys) _ ?_ ?_ _ _
      (initial_worker host adapters)
    · intro worker batch inv
      exact (batch_activated host adapters shared positive complete worker inv batch).2.1
    · intro worker batch inv
      exact batch_served host adapters shared positive complete worker inv batch

end Batches

theorem smallAdapters_keys (id : Nat) (key : Key) :
    key ∈ (smallAdapters id).keys ↔ key ∈ smallHost.keys :=
  Iff.rfl

/-- Three adapters in a cache for two; the adapters' only key is the model's only key. -/
theorem batches_served_small :
    AllSteps (serveBatch smallHost smallAdapters 2) (BatchServed smallHost smallAdapters 2)
      (initialWorker smallHost) [[some 0, some 1], [], [some 2, some 0]] :=
  (batches_served_iff smallHost smallAdapters smallAdapters_keys (by decide)).mpr
    (fun _ member _ => member) _

def bareHost : Host Int where
  keys := []
  initial := fun _ => 0
  zeroed := fun _ _ _ => rfl

/-- Activation passes over the key that the model lacks, deactivation raises. -/
theorem batches_not_served :
    ¬ ∀ (host : Host Int) (adapters : Nat → Dict Key Int) (capacity : Nat) (keys : List Key),
      1 ≤ capacity → (∀ id key, key ∈ (adapters id).keys ↔ key ∈ keys) →
        ∀ batches, AllSteps (serveBatch host adapters capacity) (BatchServed host adapters capacity)
          (initialWorker host) batches := by
  intro claimed
  obtain ⟨_, second, _⟩ := claimed bareHost smallAdapters 4 smallHost.keys (by decide)
    smallAdapters_keys [[some 0], []]
  exact second.returns (by decide)

end ScalarLM.Adapter
