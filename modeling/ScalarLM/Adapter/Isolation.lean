import ScalarLM.Adapter.Serving

/-! Whether the forward pass of a batch runs with every group's own adapter. -/

namespace ScalarLM.Adapter

open Transition

/-- A sequence group: the id of its adapter, 0 for none, and whether it has no
sampling parameters. -/
structure Group where
  loraIntId : Nat
  embedding : Bool
  deriving DecidableEq, Repr

def Group.loraRequest (group : Group) : Option Nat :=
  if group.loraIntId = 0 then none else some group.loraIntId

inductive Runner where
  | gpu
  | cpu
  deriving DecidableEq, Repr

def Runner.contribution : Runner → Group → List (Option Nat)
  | .gpu, group => if 0 < group.loraIntId then [group.loraRequest] else []
  | .cpu, group => [group.loraRequest]

/-- A batch that the scheduler admits, with its set of requests in the order in
which the set happens to be enumerated. -/
structure Batch (runner : Runner) (maxLoras : Nat) where
  groups : List Group
  loraRequests : List (Option Nat)
  nonempty : groups ≠ []
  admitted : ((groups.map Group.loraIntId).filter (0 < ·)).dedup.length ≤ maxLoras
  distinct : loraRequests.Nodup
  collected : ∀ request, request ∈ loraRequests ↔
    ∃ group ∈ groups, request ∈ runner.contribution group

/-- The last group alone decides whether the GPU runner takes the batch for one of
embedding requests. -/
def isEmbeddingRequest (groups : List Group) : Bool :=
  match groups.getLast? with
  | some group => group.embedding
  | none => false

section Isolation

variable {V : Type} [Zero V] (host : Host V) (adapters : Nat → Dict Key V) (capacity : Nat)
  {runner : Runner} {maxLoras : Nat}

def manageAdapters (batch : Batch runner maxLoras) (worker : Worker V) : WorkerOutcome V :=
  match runner with
  | .gpu =>
      if isEmbeddingRequest batch.groups then (worker, some false)
      else manageTokenformerAdapters host adapters capacity batch.loraRequests worker
  | .cpu => manageTokenformerAdapters host adapters capacity batch.loraRequests worker

def executeBatch (worker : Worker V) (batch : Batch runner maxLoras) : Worker V :=
  (manageAdapters host adapters capacity batch worker).1

/-- Whether a parameter has a say in the forward pass: with no adapter active the
zero `tokenformer_p` make the other tokenformer parameters drop out. -/
def Effective (active : Option Nat) (key : Key) : Prop :=
  active = none → IsTokenformer key → IsReset key

/-- The model has the tensors of the active adapter over the original ones. -/
def ExactWeights (active : Option Nat) (weights : Key → V) : Prop :=
  ∀ key ∈ host.keys, Effective active key →
    weights key = (activeTensor adapters active key).getD (host.initial key)

/-- The group's own adapter is active, or none is for a group without one, and the
weights are its weights. -/
def OwnWeights (worker : Worker V) (group : Group) : Prop :=
  Activated group.loraRequest worker ∧
    ExactWeights host adapters worker.manager.activeAdapter worker.manager.weights

/-- The batch gets to its forward pass and every group finds its own weights. -/
def Isolated (worker : Worker V) (batch : Batch runner maxLoras) : Prop :=
  (manageAdapters host adapters capacity batch worker).2 ≠ none ∧
    ∀ group ∈ batch.groups,
      OwnWeights host adapters (executeBatch host adapters capacity worker batch) group

/-- Nothing outside the active adapter, the heads and the cleared keys has a value
that an earlier adapter left. -/
def NoResidue (active : Option Nat) (cleared : List Key) (weights : Key → V) : Prop :=
  ∀ key ∈ host.keys, Effective active key → ¬ IsLmHead key →
    activeTensor adapters active key = none → key ∉ cleared → weights key = host.initial key

/-- The state before lets the one request of a batch take effect: deactivation or
eviction of the active adapter gets through, and no parameter that the request's
adapter lacks keeps a value of an earlier one. -/
def Prepared (worker : Worker V) : Option Nat → Prop
  | none =>
      (∀ id ∈ worker.manager.activeAdapter, Completes host (adapters id).keys) ∧
        NoResidue host adapters none
          (resetBy host adapters capacity worker.manager .deactivateAllAdapters)
          worker.manager.weights
  | some request =>
      (∀ id ∈ worker.manager.registeredAdapters, (request, id) ∈ worker.adaptorMapping →
        NoResidue host adapters (some id) [] worker.manager.weights) ∧
      ((∀ id ∈ worker.manager.registeredAdapters, (request, id) ∉ worker.adaptorMapping) →
        (1 ≤ capacity ∧ EvictionCompletes host adapters capacity worker.manager) ∧
          NoResidue host adapters (some (worker.globalLoraId + 1))
            (resetBy host adapters capacity worker.manager
              (.addAdapter (worker.globalLoraId + 1))) worker.manager.weights)

/-- All groups want the same adapter, or none. On the GPU a batch that counts as
one of embedding requests finds it active already; any other batch finds a state in
which it can be activated. -/
def Uniform (worker : Worker V) (batch : Batch runner maxLoras) : Prop :=
  ∃ request, (∀ group ∈ batch.groups, group.loraRequest = request) ∧
    if runner = .gpu ∧ isEmbeddingRequest batch.groups = true then
      Activated request worker ∧
        NoResidue host adapters worker.manager.activeAdapter [] worker.manager.weights
    else Prepared host adapters capacity worker request

/-- The batch gets to its forward pass. The engine stops at one that does not. -/
def Executed (worker : Worker V) (batch : Batch runner maxLoras) : Prop :=
  (manageAdapters host adapters capacity batch worker).2 ≠ none

instance (worker : Worker V) (batch : Batch runner maxLoras) :
    Decidable (Executed host adapters capacity worker batch) :=
  inferInstanceAs (Decidable (_ ≠ none))

/-- The tensors of the active adapter and the original heads besides them are in
place; other parameters may hold anything. -/
structure Overlaid (active : Option Nat) (weights : Key → V) : Prop where
  tensors : ∀ id, active = some id → ∀ key ∈ host.keys, ∀ value,
    (adapters id).get? key = some value → weights key = value
  heads : ∀ key ∈ host.keys, IsLmHead key → activeTensor adapters active key = none →
    weights key = host.initial key

/-- The worker between batches that reached their forward pass, whatever keys the
adapters have. -/
structure BetweenBatches (worker : Worker V) : Prop extends MappingInvariant worker where
  registry : RegistryInvariant capacity worker.manager
  overlaid : Overlaid host adapters worker.manager.activeAdapter worker.manager.weights

variable {active : Option Nat} {weights : Key → V}

section Residue

variable {host adapters}

theorem Overlaid.exact_iff (laid : Overlaid host adapters active weights) :
    ExactWeights host adapters active weights ↔ NoResidue host adapters active [] weights := by
  constructor
  · intro own key present effective _ absent _
    rw [own key present effective, absent, Option.getD_none]
  · intro clean key present effective
    cases found : activeTensor adapters active key with
    | some value =>
        obtain ⟨id, marked, held⟩ := Option.bind_eq_some_iff.mp found
        exact laid.tensors id marked key present value held
    | none =>
        by_cases head : IsLmHead key
        · exact laid.heads key present head found
        · exact clean key present effective head found List.not_mem_nil

theorem noResidue_reset (keys : List Key) :
    NoResidue host adapters active [] (resetKeys host keys weights) ↔
      NoResidue host adapters active keys weights := by
  constructor
  · intro clean key present effective other absent kept
    have original := clean key present effective other absent List.not_mem_nil
    rwa [resetKeys, if_neg kept] at original
  · intro clean key present effective other absent _
    unfold resetKeys
    split
    · rfl
    · rename_i kept
      exact clean key present effective other absent kept

theorem noResidue_activated (id : Nat) :
    NoResidue host adapters (some id) [] (activatedWeights host adapters id weights) ↔
      NoResidue host adapters (some id) [] weights := by
  have same : ∀ key ∈ host.keys, ¬ IsLmHead key → (adapters id).get? key = none →
      activatedWeights host adapters id weights key = weights key := by
    intro key present other absent
    rw [activatedWeights, loadStateDict, if_pos present, absent, Option.none_or, origLmHead,
      if_neg fun both => other both.2]
    rfl
  constructor
  · intro clean key present effective other absent kept
    rw [← same key present other absent]
    exact clean key present effective other absent kept
  · intro clean key present effective other absent kept
    rw [same key present other absent]
    exact clean key present effective other absent kept

theorem overlaid_activated (id : Nat) (weights : Key → V) :
    Overlaid host adapters (some id) (activatedWeights host adapters id weights) where
  tensors := by
    intro other marked key present value found
    cases marked
    exact activatedWeights_tensor host adapters id weights key present value found
  heads := by
    intro key present head absent
    rw [activatedWeights, loadStateDict, if_pos present,
      show (adapters id).get? key = none from absent, Option.none_or, origLmHead,
      if_pos ⟨present, head⟩]
    rfl

theorem overlaid_cleared (id : Nat) (complete : Completes host (adapters id).keys)
    (laid : Overlaid host adapters (some id) weights) :
    Overlaid host adapters none (resetKeys host (clearedKeys host (adapters id).keys) weights) where
  tensors := fun _ marked => (Option.some_ne_none _ marked.symm).elim
  heads := by
    intro key present head _
    unfold resetKeys
    split
    · rfl
    · rename_i kept
      apply laid.heads key present head
      apply (Dict.get?_eq_none_iff_not_mem_keys _ _).mpr
      intro member
      exact kept ((mem_clearedKeys host _ complete key).mpr ⟨member, Or.inr head⟩)

end Residue

section Manager

variable {capacity} {state : Manager V}

theorem addAdapter_raises (id : Nat) (inv : RegistryInvariant capacity state)
    (stuck : ¬ (1 ≤ capacity ∧ EvictionCompletes host adapters capacity state)) :
    (addAdapter host adapters capacity id state).2 = none := by
  rcases Nat.eq_zero_or_pos capacity with rfl | positive
  · have empty : state.registeredAdapters = [] := List.length_eq_zero_iff.mp
      (Nat.le_zero.mp inv.bounded)
    have order := inv.order
    rw [empty, List.perm_nil] at order
    rw [addAdapter, if_pos (Nat.zero_le _), order]
  · have blocked : ¬ EvictionCompletes host adapters capacity state :=
      fun completes => stuck ⟨positive, completes⟩
    unfold EvictionCompletes at blocked
    push Not at blocked
    obtain ⟨full, lru, head, active, incomplete⟩ := blocked
    obtain ⟨rest, order⟩ := List.head?_eq_some_iff.mp head
    have removal : RemovalStuck host adapters { state with lruAdaptorIds := rest } lru :=
      ⟨inv.active lru active, active, incomplete⟩
    rw [addAdapter_full host adapters id lru rest full order, removeAdapter_eq, if_pos removal]
    rfl

theorem activate_overlaid (id : Nat) (registered : id ∈ state.registeredAdapters)
    (laid : Overlaid host adapters state.activeAdapter state.weights) :
    (activateAdapter host adapters id state).1.activeAdapter = some id ∧
      (activateAdapter host adapters id state).1.registeredAdapters = state.registeredAdapters ∧
      Overlaid host adapters (some id) (activateAdapter host adapters id state).1.weights ∧
      (NoResidue host adapters (some id) [] (activateAdapter host adapters id state).1.weights ↔
        NoResidue host adapters (some id) [] state.weights) := by
  rw [activateAdapter, if_pos registered]
  dsimp only
  split
  · rename_i active
    rw [active] at laid
    exact ⟨active, rfl, laid, Iff.rfl⟩
  · exact ⟨rfl, rfl, overlaid_activated id _, noResidue_activated id⟩

end Manager

section Serve

variable (worker : Worker V)

/-- What serving a request comes to: when it gets through, and then that the worker
is in order, the request's adapter is active and when no residue is left. -/
structure ServedAs (request : Option Nat) (through clean : Prop) : Prop where
  returns : (serve host adapters capacity request worker).2 ≠ none ↔ through
  between : (serve host adapters capacity request worker).2 ≠ none →
    BetweenBatches host adapters capacity (serve host adapters capacity request worker).1
  activated : (serve host adapters capacity request worker).2 ≠ none →
    Activated request (serve host adapters capacity request worker).1
  residue : (serve host adapters capacity request worker).2 ≠ none →
    (NoResidue host adapters
        (serve host adapters capacity request worker).1.manager.activeAdapter []
        (serve host adapters capacity request worker).1.manager.weights ↔ clean)

variable {host adapters capacity worker}

theorem servedAs_of_raised {request : Option Nat} {through clean : Prop}
    (raised : (serve host adapters capacity request worker).2 = none) (stuck : ¬ through) :
    ServedAs host adapters capacity worker request through clean where
  returns := iff_of_false (fun returned => returned raised) stuck
  between := fun returned => absurd raised returned
  activated := fun returned => absurd raised returned
  residue := fun returned => absurd raised returned

variable (host adapters) (inv : BetweenBatches host adapters capacity worker)

include inv

theorem serve_none_as :
    ServedAs host adapters capacity worker none
      (∀ id ∈ worker.manager.activeAdapter, Completes host (adapters id).keys)
      (NoResidue host adapters none
        (resetBy host adapters capacity worker.manager .deactivateAllAdapters)
        worker.manager.weights) := by
  have laid := inv.overlaid
  simp only [resetBy]
  cases active : worker.manager.activeAdapter with
  | none =>
      have idle : serve host adapters capacity none worker = (worker, some false) := by
        simp only [serve, deactivateAllAdapters, active, Outcome.andThen, Worker.lift]
        rw [← active]
      refine ⟨?_, ?_, ?_, ?_⟩
      · rw [idle]
        exact iff_of_true (Option.some_ne_none _)
          fun _ marked => (Option.some_ne_none _ marked.symm).elim
      · rw [idle]
        exact fun _ => inv
      · rw [idle]
        exact fun _ => active
      · rw [idle, active]
        exact fun _ => Iff.rfl
  | some id =>
      rw [active] at laid
      have reset := deactivateAdapter_eq host adapters worker.manager id
        (inv.registry.active id active)
      by_cases complete : Completes host (adapters id).keys
      · have outcome : serve host adapters capacity none worker =
            ({ worker with manager := { worker.manager with
                weights := resetKeys host (clearedKeys host (adapters id).keys)
                  worker.manager.weights
                activeAdapter := none } }, some false) := by
          simp only [serve, deactivateAllAdapters, active, reset, if_pos complete,
            Outcome.andThen, Worker.lift, Manager.reset]
        refine ⟨?_, ?_, ?_, ?_⟩
        · rw [outcome]
          exact iff_of_true (Option.some_ne_none _)
            fun other marked => Option.some.inj marked ▸ complete
        · rw [outcome]
          exact fun _ => {
            toMappingInvariant := inv.toMappingInvariant.of_subset _ fun _ member => member
            registry := inv.registry.of_same _ rfl rfl
              fun _ marked => (Option.some_ne_none _ marked.symm).elim
            overlaid := overlaid_cleared id complete laid }
        · rw [outcome]
          exact fun _ => rfl
        · rw [outcome]
          simp only [if_pos (inv.registry.active id active)]
          exact fun _ => noResidue_reset _
      · have raised : (serve host adapters capacity none worker).2 = none := by
          simp only [serve, deactivateAllAdapters, active, reset, if_neg complete,
            Outcome.andThen, Worker.lift]
        exact servedAs_of_raised raised fun all => complete (all id rfl)

theorem serve_known_as (request id : Nat) (registered : id ∈ worker.manager.registeredAdapters)
    (mapped : (request, id) ∈ worker.adaptorMapping) :
    ServedAs host adapters capacity worker (some request) True
      (NoResidue host adapters (some id) [] worker.manager.weights) := by
  have outcome :=
    serve_known host adapters capacity inv.toMappingInvariant request id registered mapped
  obtain ⟨returned, registry⟩ := activate_registry host adapters id registered inv.registry
  obtain ⟨active, same, laid, residue⟩ :=
    activate_overlaid host adapters id registered inv.overlaid
  refine ⟨?_, fun _ => ?_, fun _ => ?_, fun _ => ?_⟩
  · rw [outcome]
    exact iff_of_true returned trivial
  · rw [outcome]
    exact {
      toMappingInvariant := inv.toMappingInvariant.of_subset _ fun other member => by
        rw [same] at member
        exact member
      registry := registry
      overlaid := by
        simp only [Worker.lift, active]
        exact laid }
  · rw [outcome]
    exact ⟨id, (Dict.get?_eq_some_iff _ _ _).mpr mapped, active⟩
  · rw [outcome]
    simp only [Worker.lift, active]
    exact residue

theorem serve_unknown_as (request : Nat)
    (unknown : ∀ id ∈ worker.manager.registeredAdapters,
      (request, id) ∉ worker.adaptorMapping) :
    ServedAs host adapters capacity worker (some request)
      (1 ≤ capacity ∧ EvictionCompletes host adapters capacity worker.manager)
      (NoResidue host adapters (some (worker.globalLoraId + 1))
        (resetBy host adapters capacity worker.manager (.addAdapter (worker.globalLoraId + 1)))
        worker.manager.weights) := by
  by_cases through : 1 ≤ capacity ∧ EvictionCompletes host adapters capacity worker.manager
  · obtain ⟨loaded, kept, order, added, first, permuted, sub, room, within, unordered, _⟩ :=
      load_eq host adapters through.1 (worker.globalLoraId + 1) inv.registry inv.fresh through.2
    have outcome := serve_unknown host adapters capacity inv.toMappingInvariant request unknown
      loaded true added (by rw [first]; exact Option.some_ne_none _)
    rw [first] at outcome
    -- the state between the two activations
    let between : Manager V := {
      weights := activatedWeights host adapters (worker.globalLoraId + 1) (resetKeys host
        (resetBy host adapters capacity worker.manager (.addAdapter (worker.globalLoraId + 1)))
        worker.manager.weights)
      registeredAdapters := kept ++ [worker.globalLoraId + 1]
      activeAdapter := some (worker.globalLoraId + 1)
      lruAdaptorIds := order ++ [worker.globalLoraId + 1]
      activations := worker.manager.activations ++ [worker.globalLoraId + 1] }
    have registered : worker.globalLoraId + 1 ∈ between.registeredAdapters :=
      List.mem_append_right _ List.mem_cons_self
    have extended : RegistryInvariant capacity between :=
      inv.registry.extend _ kept order permuted sub room unordered between rfl rfl rfl
    obtain ⟨returned, registry⟩ := activate_registry host adapters _ registered extended
    obtain ⟨active, same, laid, residue⟩ :=
      activate_overlaid host adapters _ registered (overlaid_activated _ _)
    refine ⟨?_, fun _ => ?_, fun _ => ?_, fun _ => ?_⟩
    · rw [outcome]
      exact iff_of_true returned through
    · rw [outcome]
      exact {
        toMappingInvariant := inv.toMappingInvariant.load request _ unknown fun id member new => by
          rw [same] at member
          rcases List.mem_append.mp member with old | last
          · exact within id old
          · exact absurd (List.mem_singleton.mp last) new
        registry := registry
        overlaid := by
          simp only [Worker.lift]
          rw [active]
          exact laid }
    · rw [outcome]
      exact ⟨worker.globalLoraId + 1, (Dict.get?_set _ _ _ _).trans (if_pos rfl), active⟩
    · rw [outcome]
      simp only [Worker.lift]
      rw [active]
      exact residue.trans ((noResidue_activated _).trans (noResidue_reset _))
  · have raised := serve_unknown_raises host adapters capacity inv.toMappingInvariant request
      unknown (addAdapter_raises host adapters _ inv.registry through)
    exact servedAs_of_raised raised through

theorem serve_as (request : Option Nat) :
    ∃ through clean, ServedAs host adapters capacity worker request through clean ∧
      (Prepared host adapters capacity worker request ↔ through ∧ clean) := by
  cases request with
  | none => exact ⟨_, _, serve_none_as host adapters inv, Iff.rfl⟩
  | some request =>
      by_cases known : ∃ id ∈ worker.manager.registeredAdapters,
          (request, id) ∈ worker.adaptorMapping
      · obtain ⟨id, registered, mapped⟩ := known
        refine ⟨_, _, serve_known_as host adapters inv request id registered mapped, ?_⟩
        constructor
        · intro given
          rcases given with ⟨clean, _⟩
          exact ⟨trivial, clean id registered mapped⟩
        · intro given
          rcases given with ⟨_, clean⟩
          refine ⟨fun other _ target => ?_, fun unknown => absurd mapped (unknown id registered)⟩
          rw [Dict.value_unique _ _ _ _ target mapped]
          exact clean
      · have unknown : ∀ id ∈ worker.manager.registeredAdapters,
            (request, id) ∉ worker.adaptorMapping :=
          fun id registered mapped => known ⟨id, registered, mapped⟩
        refine ⟨_, _, serve_unknown_as host adapters inv request unknown, ?_⟩
        exact ⟨fun prepared => prepared.2 unknown, fun both =>
          ⟨fun id registered mapped => absurd mapped (unknown id registered), fun _ => both⟩⟩

/-- The state before decides whether a request takes effect without residue. -/
theorem serve_exact_iff (request : Option Nat) :
    ((serve host adapters capacity request worker).2 ≠ none ∧
      ExactWeights host adapters
        (serve host adapters capacity request worker).1.manager.activeAdapter
        (serve host adapters capacity request worker).1.manager.weights) ↔
      Prepared host adapters capacity worker request := by
  obtain ⟨through, clean, served, prepared⟩ := serve_as host adapters inv request
  rw [prepared, ← served.returns]
  refine and_congr_right fun returned => ?_
  rw [(served.between returned).overlaid.exact_iff, served.residue returned]

theorem serve_between (request : Option Nat)
    (returned : (serve host adapters capacity request worker).2 ≠ none) :
    BetweenBatches host adapters capacity (serve host adapters capacity request worker).1 ∧
      Activated request (serve host adapters capacity request worker).1 := by
  obtain ⟨_, _, served, _⟩ := serve_as host adapters inv request
  exact ⟨served.between returned, served.activated returned⟩

omit inv in
theorem serveEach_between (requests : List (Option Nat)) (worker : Worker V)
    (inv : BetweenBatches host adapters capacity worker)
    (returned : (serveEach host adapters capacity requests worker).2 ≠ none) :
    BetweenBatches host adapters capacity
      (serveEach host adapters capacity requests worker).1 := by
  induction requests generalizing worker with
  | nil => exact inv
  | cons request rest ih =>
      by_cases raised : (serve host adapters capacity request worker).2 = none
      · rw [serveEach_cons_raises host adapters capacity request rest worker raised] at returned
        exact absurd raised returned
      · rw [serveEach_cons host adapters capacity request rest worker raised] at returned ⊢
        exact ih _ (serve_between host adapters inv request raised).1 returned

end Serve

section Batches

variable {capacity} (worker : Worker V) (batch : Batch runner maxLoras)

theorem manageAdapters_eq :
    manageAdapters host adapters capacity batch worker =
      if runner = .gpu ∧ isEmbeddingRequest batch.groups = true then (worker, some false)
      else manageTokenformerAdapters host adapters capacity batch.loraRequests worker := by
  cases runner with
  | gpu => simp [manageAdapters]
  | cpu => simp [manageAdapters]

theorem loraRequests_uniform (request : Option Nat)
    (uniform : ∀ group ∈ batch.groups, group.loraRequest = request) :
    batch.loraRequests = [request] ∨ batch.loraRequests = [] ∧ request = none := by
  obtain ⟨first, member⟩ := List.exists_mem_of_ne_nil _ batch.nonempty
  have only : ∀ group ∈ batch.groups, ∀ other ∈ runner.contribution group, other = request := by
    intro group within other contributed
    rw [← uniform group within]
    cases runner with
    | gpu =>
        simp only [Runner.contribution] at contributed
        split at contributed
        · exact List.mem_singleton.mp contributed
        · cases contributed
    | cpu => exact List.mem_singleton.mp contributed
  by_cases contributes : request ∈ batch.loraRequests
  · left
    apply List.perm_singleton.mp
    rw [List.perm_ext_iff_of_nodup batch.distinct (List.nodup_singleton request)]
    intro other
    rw [List.mem_singleton]
    constructor
    · intro listed
      obtain ⟨group, within, contributed⟩ := (batch.collected other).mp listed
      exact only group within other contributed
    · intro same
      cases same
      exact contributes
  · right
    have silent : ∀ group ∈ batch.groups, request ∉ runner.contribution group :=
      fun group within contributed => contributes ((batch.collected request).mpr
        ⟨group, within, contributed⟩)
    refine ⟨List.eq_nil_iff_forall_not_mem.mpr fun other listed => ?_, ?_⟩
    · obtain ⟨group, within, contributed⟩ := (batch.collected other).mp listed
      rw [only group within other contributed] at contributed
      exact silent group within contributed
    · have quiet := silent first member
      rw [← uniform first member] at quiet ⊢
      cases runner with
      | gpu =>
          simp only [Runner.contribution, Group.loraRequest] at quiet ⊢
          by_cases base : first.loraIntId = 0
          · exact if_pos base
          · rw [if_pos (Nat.pos_of_ne_zero base)] at quiet
            exact absurd List.mem_cons_self quiet
      | cpu => exact absurd List.mem_cons_self quiet

theorem manage_uniform (request : Option Nat)
    (uniform : ∀ group ∈ batch.groups, group.loraRequest = request) :
    (manageTokenformerAdapters host adapters capacity batch.loraRequests worker).1 =
        (serve host adapters capacity request worker).1 ∧
      ((manageTokenformerAdapters host adapters capacity batch.loraRequests worker).2 ≠ none ↔
        (serve host adapters capacity request worker).2 ≠ none) := by
  rcases loraRequests_uniform batch request uniform with single | ⟨empty, rfl⟩
  · rw [single, manageTokenformerAdapters, if_neg (by simp)]
    by_cases raised : (serve host adapters capacity request worker).2 = none
    · rw [serveEach_cons_raises host adapters capacity request [] worker raised]
      exact ⟨rfl, Iff.rfl⟩
    · rw [serveEach_cons host adapters capacity request [] worker raised]
      exact ⟨rfl, iff_of_true (Option.some_ne_none _) raised⟩
  · rw [empty, manageTokenformerAdapters, if_pos List.length_nil]
    exact ⟨rfl, Iff.rfl⟩

variable {worker} (inv : BetweenBatches host adapters capacity worker)

include inv

theorem execute_between (executed : Executed host adapters capacity worker batch) :
    BetweenBatches host adapters capacity (executeBatch host adapters capacity worker batch) := by
  unfold Executed at executed
  unfold executeBatch
  rw [manageAdapters_eq] at executed ⊢
  split
  · exact inv
  · rename_i managed
    rw [if_neg managed] at executed
    unfold manageTokenformerAdapters at executed ⊢
    split
    · rename_i empty
      rw [if_pos empty] at executed
      exact (serve_between host adapters inv none executed).1
    · rename_i some
      rw [if_neg some] at executed
      exact serveEach_between host adapters batch.loraRequests worker inv executed

/-- Between batches the uniform ones are those whose groups all get their own
adapter. -/
theorem isolated_iff_uniform :
    Isolated host adapters capacity worker batch ↔
      Uniform host adapters capacity worker batch := by
  constructor
  · intro given
    rcases given with ⟨executed, own⟩
    have after := execute_between host adapters batch inv executed
    obtain ⟨first, member⟩ := List.exists_mem_of_ne_nil _ batch.nonempty
    have uniform : ∀ group ∈ batch.groups, group.loraRequest = first.loraRequest :=
      fun group within => activated_unique after.toMappingInvariant _ _ (own group within).1
        (own first member).1
    obtain ⟨activated, agree⟩ := own first member
    refine ⟨first.loraRequest, uniform, ?_⟩
    unfold executeBatch at activated agree
    rw [manageAdapters_eq] at executed activated agree
    split
    · rename_i embedding
      rw [if_pos embedding] at activated agree
      exact ⟨activated, inv.overlaid.exact_iff.mp agree⟩
    · rename_i managed
      rw [if_neg managed] at executed agree
      obtain ⟨same, returns⟩ := manage_uniform host adapters worker batch _ uniform
      rw [same] at agree
      exact (serve_exact_iff host adapters inv _).mp ⟨returns.mp executed, agree⟩
  · intro given
    rcases given with ⟨request, uniform, prepared⟩
    unfold Isolated OwnWeights executeBatch
    rw [manageAdapters_eq]
    split at prepared
    · rename_i embedding
      rw [if_pos embedding]
      refine ⟨Option.some_ne_none _, fun group within => ?_⟩
      rw [uniform group within]
      exact ⟨prepared.1, inv.overlaid.exact_iff.mpr prepared.2⟩
    · rename_i managed
      rw [if_neg managed]
      obtain ⟨returned, agree⟩ := (serve_exact_iff host adapters inv request).mpr prepared
      obtain ⟨same, returns⟩ := manage_uniform host adapters worker batch request uniform
      rw [same]
      refine ⟨returns.mpr returned, fun group within => ?_⟩
      rw [uniform group within]
      exact ⟨(serve_between host adapters inv request returned).2, agree⟩

end Batches

theorem initial_between : BetweenBatches host adapters capacity (initialWorker host) where
  toMappingInvariant := initial_mapping host
  registry := initial_registry host capacity
  overlaid := {
    tensors := fun _ marked => (Option.some_ne_none _ marked.symm).elim
    heads := fun _ _ _ _ => rfl }

/-- After any batches that were executed, the next one runs with every group's own
adapter exactly when its groups all want the same one and the state lets it take
effect. -/
theorem isolated_iff (earlier : List (Batch runner maxLoras))
    (executed : AllSteps (executeBatch host adapters capacity) (Executed host adapters capacity)
      (initialWorker host) earlier) (batch : Batch runner maxLoras) :
    Isolated host adapters capacity
        (run (executeBatch host adapters capacity) (initialWorker host) earlier) batch ↔
      Uniform host adapters capacity
        (run (executeBatch host adapters capacity) (initialWorker host) earlier) batch := by
  apply isolated_iff_uniform host adapters batch
  refine run_of_invariant _ (BetweenBatches host adapters capacity)
    (Executed host adapters capacity) ?_ _ _ (initial_between host adapters capacity) executed
  intro worker batch inv now
  exact execute_between host adapters batch inv now

end Isolation

def pairBatch : Batch .gpu 1 where
  groups := [⟨1, false⟩, ⟨1, false⟩]
  loraRequests := [some 1]
  nonempty := List.cons_ne_nil _ _
  admitted := by decide
  distinct := List.nodup_singleton _
  collected := by simp [Runner.contribution, Group.loraRequest]

def mixedBatch : Batch .gpu 1 where
  groups := [⟨0, false⟩, ⟨1, false⟩]
  loraRequests := [some 1]
  nonempty := List.cons_ne_nil _ _
  admitted := by decide
  distinct := List.nodup_singleton _
  collected := by simp [Runner.contribution, Group.loraRequest]

theorem smallAdapters_noResidue (id : Nat) (cleared : List Key) (weights : Key → Int) :
    NoResidue smallHost smallAdapters (some id) cleared weights := by
  intro key present _ _ absent
  have held : key ∈ (smallAdapters id).keys := (smallAdapters_keys id key).mpr present
  exact absurd held ((Dict.get?_eq_none_iff_not_mem_keys _ _).mp absent)

/-- After a mixed batch the groups of a uniform one still get their adapter. -/
theorem isolated_pair :
    Isolated smallHost smallAdapters 4
      (run (executeBatch smallHost smallAdapters 4) (initialWorker smallHost) [mixedBatch])
      pairBatch := by
  apply (isolated_iff smallHost smallAdapters 4 [mixedBatch] (by decide) pairBatch).mpr
  refine ⟨some 1, by decide, ?_⟩
  rw [if_neg (by decide)]
  exact ⟨fun id _ _ => smallAdapters_noResidue id _ _,
    fun _ => ⟨by decide, smallAdapters_noResidue _ _ _⟩⟩

/-- The group without an adapter gets the other group's. -/
theorem mixed_not_isolated :
    ¬ ∀ (host : Host Int) (adapters : Nat → Dict Key Int) (capacity : Nat) (runner : Runner)
      (maxLoras : Nat) (earlier : List (Batch runner maxLoras)) (batch : Batch runner maxLoras),
        AllSteps (executeBatch host adapters capacity) (Executed host adapters capacity)
          (initialWorker host) earlier →
        Isolated host adapters capacity
          (run (executeBatch host adapters capacity) (initialWorker host) earlier) batch := by
  intro claimed
  obtain ⟨_, own⟩ := claimed smallHost smallAdapters 4 .gpu 1 [] mixedBatch trivial
  have base : (executeBatch smallHost smallAdapters 4 (initialWorker smallHost)
      mixedBatch).manager.activeAdapter = none := (own ⟨0, false⟩ List.mem_cons_self).1
  exact absurd base (by decide)

end ScalarLM.Adapter
