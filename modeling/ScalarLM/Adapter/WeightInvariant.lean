import Mathlib.Algebra.Ring.Int.Defs
import ScalarLM.Adapter.Deactivation
import ScalarLM.Lib.Transition

/-! Which calls keep the model's weights in line with the active adapter. -/

namespace ScalarLM.Adapter

open Transition

section Invariant

variable {V : Type} [Zero V] (host : Host V) (adapters : Nat → Dict Key V)

/-- The weights are those of the active adapter over the original model, or
compute the original function when no adapter is active. -/
structure WeightsAgree (active : Option Nat) (weights : Key → V) : Prop where
  tensors : ∀ id, active = some id → ∀ key ∈ host.keys, ∀ value,
    (adapters id).get? key = some value → weights key = value
  otherHeads : ∀ id, active = some id → ∀ key ∈ host.keys, IsLmHead key →
    (adapters id).get? key = none → weights key = host.initial key
  otherTokenformers : ∀ id, active = some id → ∀ key ∈ host.keys, IsTokenformerP key →
    (adapters id).get? key = none → weights key = 0
  heads : active = none → ∀ key ∈ host.keys, IsLmHead key → weights key = host.initial key
  tokenformers : active = none → ∀ key ∈ host.keys, IsTokenformerP key → weights key = 0

def WeightInvariant (state : Manager V) : Prop :=
  WeightsAgree host adapters state.activeAdapter state.weights

def activeTensor (active : Option Nat) (key : Key) : Option V :=
  active.bind fun id => (adapters id).get? key

/-- Key by key: the active adapter's tensor where it has one, and the original
tensor at the other keys that deactivation resets. -/
theorem weightsAgree_iff (active : Option Nat) (weights : Key → V) :
    WeightsAgree host adapters active weights ↔
      ∀ key ∈ host.keys,
        (∀ value, activeTensor adapters active key = some value → weights key = value) ∧
        (activeTensor adapters active key = none → IsReset key →
          weights key = host.initial key) := by
  constructor
  · intro agree key present
    cases active with
    | none =>
        refine ⟨fun value found => (Option.some_ne_none _ found.symm).elim, ?_⟩
        intro _ either
        rcases either with tokenformer | head
        · rw [agree.tokenformers rfl key present tokenformer, host.zeroed key present tokenformer]
        · exact agree.heads rfl key present head
    | some id =>
        refine ⟨fun value found => agree.tensors id rfl key present value found, ?_⟩
        intro absent either
        rcases either with tokenformer | head
        · rw [agree.otherTokenformers id rfl key present tokenformer absent,
            host.zeroed key present tokenformer]
        · exact agree.otherHeads id rfl key present head absent
  · intro agree
    refine ⟨?_, ?_, ?_, ?_, ?_⟩
    · intro id same key present value found
      cases same
      exact (agree key present).1 value found
    · intro id same key present head absent
      cases same
      exact (agree key present).2 absent (Or.inr head)
    · intro id same key present tokenformer absent
      cases same
      rw [(agree key present).2 absent (Or.inl tokenformer), host.zeroed key present tokenformer]
    · intro same key present head
      cases same
      exact (agree key present).2 rfl (Or.inr head)
    · intro same key present tokenformer
      cases same
      rw [(agree key present).2 rfl (Or.inl tokenformer), host.zeroed key present tokenformer]

variable (active : Option Nat) (weights : Key → V)
  (agree : WeightsAgree host adapters active weights)

def Spares (keys : List Key) : Prop :=
  ∀ id, active = some id → ∀ key ∈ keys, ∀ value,
    (adapters id).get? key = some value → value = host.initial key

include agree

theorem reset_agrees_iff (keys : List Key) (within : ∀ key ∈ keys, key ∈ host.keys) :
    WeightsAgree host adapters active (resetKeys host keys weights) ↔
      Spares host adapters active keys := by
  rw [weightsAgree_iff] at agree
  rw [weightsAgree_iff]
  constructor
  · intro after id same key member value found
    cases same
    have held := (after key (within key member)).1 value found
    rw [resetKeys, if_pos member] at held
    exact held.symm
  · intro spared key present
    unfold resetKeys
    refine ⟨?_, ?_⟩
    · intro value found
      by_cases member : key ∈ keys
      · rw [if_pos member]
        obtain ⟨id, rfl, held⟩ := Option.bind_eq_some_iff.mp found
        exact (spared id rfl key member value held).symm
      · rw [if_neg member]
        exact (agree key present).1 value found
    · intro absent resets
      by_cases member : key ∈ keys
      · rw [if_pos member]
      · rw [if_neg member]
        exact (agree key present).2 absent resets

/-- Clearing the marker needs every tensor of the active adapter reset that is
not the original one anyway. -/
theorem cleared_agrees_iff (keys : List Key) :
    WeightsAgree host adapters none (resetKeys host keys weights) ↔
      ∀ id, active = some id → ∀ key ∈ host.keys, ∀ value,
        (adapters id).get? key = some value → IsReset key → key ∉ keys →
          value = host.initial key := by
  rw [weightsAgree_iff] at agree
  rw [weightsAgree_iff]
  constructor
  · intro after id same key present value found resets kept
    cases same
    have original := (after key present).2 rfl resets
    rw [resetKeys, if_neg kept] at original
    rw [← original, (agree key present).1 value found]
  · intro covered key present
    refine ⟨fun value found => (Option.some_ne_none _ found.symm).elim, ?_⟩
    intro _ resets
    unfold resetKeys
    by_cases member : key ∈ keys
    · rw [if_pos member]
    · rw [if_neg member]
      cases found : activeTensor adapters active key with
      | none => exact (agree key present).2 found resets
      | some value =>
          obtain ⟨id, equal, held⟩ := Option.bind_eq_some_iff.mp found
          rw [(agree key present).1 value found]
          exact covered id equal key present value held resets member

omit agree in
theorem activated_agrees_iff (id : Nat) :
    WeightsAgree host adapters (some id)
        (loadStateDict host (fun key => ((adapters id).get? key).or (origLmHead host key))
          weights) ↔
      ∀ key ∈ host.keys, IsTokenformerP key → ¬ IsLmHead key →
        (adapters id).get? key = none → weights key = 0 := by
  have loaded : ∀ key ∈ host.keys, loadStateDict host
      (fun key => ((adapters id).get? key).or (origLmHead host key)) weights key =
        (((adapters id).get? key).or (origLmHead host key)).getD (weights key) :=
    fun key present => if_pos present
  rw [weightsAgree_iff]
  constructor
  · intro after key present tokenformer other absent
    have original := (after key present).2 absent (Or.inl tokenformer)
    rw [loaded key present, absent, origLmHead, if_neg (fun both => other both.2)] at original
    exact original.trans (host.zeroed key present tokenformer)
  · intro clean key present
    rw [loaded key present]
    refine ⟨?_, ?_⟩
    · intro value found
      rw [show (adapters id).get? key = some value from found]
      rfl
    · intro absent resets
      rw [show (adapters id).get? key = none from absent]
      by_cases head : IsLmHead key
      · rw [origLmHead, if_pos ⟨present, head⟩]
        rfl
      · have tokenformer := resets.resolve_right head
        rw [origLmHead, if_neg (fun both => head both.2), host.zeroed key present tokenformer]
        exact clean key present tokenformer head absent

end Invariant

section Calls

variable {V : Type} [Zero V] (host : Host V) (adapters : Nat → Dict Key V) (capacity : Nat)

def resetBy (state : Manager V) : Call → List Key
  | .addAdapter _ =>
      if capacity ≤ state.registeredAdapters.length then
        match state.lruAdaptorIds with
        | [] => []
        | lru :: _ => removedKeys host adapters state lru
      else []
  | .activateAdapter _ => []
  | .deactivateAdapter id =>
      if id ∈ state.registeredAdapters then clearedKeys host (adapters id).keys else []
  | .removeAdapter id => removedKeys host adapters state id
  | .deactivateAllAdapters =>
      match state.activeAdapter with
      | none => []
      | some id => if id ∈ state.registeredAdapters then clearedKeys host (adapters id).keys else []
  | .removeAllAdapters => clearedEach host adapters state.registeredAdapters

/-- The calls that clear the active marker, unless they raise before. -/
def ClearsMarker (state : Manager V) : Call → Prop
  | .deactivateAllAdapters => ∀ id, state.activeAdapter = some id →
      id ∈ state.registeredAdapters ∧ Completes host (adapters id).keys
  | .removeAllAdapters => ∀ id ∈ state.registeredAdapters, Completes host (adapters id).keys
  | _ => False

/-- A call that does not part the weights from the active marker: it activates an
adapter when no `tokenformer_p` that the adapter lacks holds a value; or it clears
the marker and resets the active adapter's tensors; or it keeps the marker and
resets no tensor of the active adapter that differs from the original. -/
def Harmless (state : Manager V) (call : Call) : Prop :=
  (∀ id, call = .activateAdapter id → id ∈ state.registeredAdapters →
    state.activeAdapter ≠ some id → ∀ key ∈ host.keys, IsTokenformerP key → ¬ IsLmHead key →
      (adapters id).get? key = none → state.weights key = 0) ∧
  (ClearsMarker host adapters state call → ∀ id, state.activeAdapter = some id →
    ∀ key ∈ host.keys, ∀ value, (adapters id).get? key = some value → IsReset key →
      key ∉ resetBy host adapters capacity state call → value = host.initial key) ∧
  (¬ ClearsMarker host adapters state call →
    Spares host adapters state.activeAdapter (resetBy host adapters capacity state call))

variable (state : Manager V)

theorem resetBy_subset (call : Call) :
    ∀ key ∈ resetBy host adapters capacity state call, key ∈ host.keys := by
  intro key member
  cases call with
  | addAdapter id =>
      simp only [resetBy] at member
      split at member
      · split at member
        · cases member
        · exact removedKeys_subset host adapters state _ key member
      · cases member
  | activateAdapter id => cases member
  | deactivateAdapter id =>
      simp only [resetBy] at member
      split at member
      · exact (clearedKeys_subset host _ key member).2.2
      · cases member
  | removeAdapter id => exact removedKeys_subset host adapters state id key member
  | deactivateAllAdapters =>
      simp only [resetBy] at member
      split at member
      · cases member
      · split at member
        · exact (clearedKeys_subset host _ key member).2.2
        · cases member
  | removeAllAdapters => exact clearedEach_subset host adapters _ key member

theorem removeAdapter_weights (id : Nat) :
    (removeAdapter host adapters id state).1.weights =
        resetKeys host (removedKeys host adapters state id) state.weights ∧
      (removeAdapter host adapters id state).1.activeAdapter = state.activeAdapter := by
  rw [removeAdapter_eq]
  split <;> exact ⟨rfl, rfl⟩

theorem addAdapter_weights (id : Nat) :
    (addAdapter host adapters capacity id state).1.weights =
        resetKeys host (resetBy host adapters capacity state (.addAdapter id)) state.weights ∧
      (addAdapter host adapters capacity id state).1.activeAdapter = state.activeAdapter := by
  unfold addAdapter
  simp only [resetBy]
  split
  · cases order : state.lruAdaptorIds with
    | nil => exact ⟨(resetKeys_nil host _).symm, rfl⟩
    | cons lru rest =>
        have removed := removeAdapter_weights host adapters { state with lruAdaptorIds := rest } lru
        change (Outcome.andThen
            (removeAdapter host adapters lru { state with lruAdaptorIds := rest })
            (registerAdapter id)).1.weights =
              resetKeys host (removedKeys host adapters state lru) state.weights ∧
          (Outcome.andThen
            (removeAdapter host adapters lru { state with lruAdaptorIds := rest })
            (registerAdapter id)).1.activeAdapter = state.activeAdapter
        cases outcome : removeAdapter host adapters lru { state with lruAdaptorIds := rest } with
        | mk after returned =>
            rw [outcome] at removed
            cases returned with
            | none => exact removed
            | some value => exact removed
  · exact ⟨(resetKeys_nil host _).symm, rfl⟩

/-- A call other than an effective activation resets keys and clears the marker or
keeps it. -/
theorem step_resets (call : Call)
    (passive : ∀ id, call = .activateAdapter id → id ∈ state.registeredAdapters →
      state.activeAdapter = some id) :
    (step host adapters capacity state call).weights =
        resetKeys host (resetBy host adapters capacity state call) state.weights ∧
      (ClearsMarker host adapters state call →
        (step host adapters capacity state call).activeAdapter = none) ∧
      (¬ ClearsMarker host adapters state call →
        (step host adapters capacity state call).activeAdapter = state.activeAdapter) := by
  cases call with
  | addAdapter id =>
      obtain ⟨weights, active⟩ := addAdapter_weights host adapters capacity state id
      exact ⟨weights, False.elim, fun _ => active⟩
  | activateAdapter id =>
      have idle : (activateAdapter host adapters id state).1.weights = state.weights ∧
          (activateAdapter host adapters id state).1.activeAdapter = state.activeAdapter := by
        unfold activateAdapter
        by_cases registered : id ∈ state.registeredAdapters
        · simp [registered, passive id rfl registered]
        · simp [registered]
      exact ⟨idle.1.trans (resetKeys_nil host _).symm, False.elim, fun _ => idle.2⟩
  | deactivateAdapter id =>
      by_cases registered : id ∈ state.registeredAdapters
      · simp only [step, perform, deactivateAdapter_eq host adapters state id registered, resetBy,
          if_pos registered]
        exact ⟨rfl, False.elim, fun _ => rfl⟩
      · rw [step, perform, deactivateAdapter, resetBy, if_neg registered, if_neg registered,
          resetKeys_nil]
        exact ⟨rfl, False.elim, fun _ => rfl⟩
  | removeAdapter id =>
      obtain ⟨weights, active⟩ := removeAdapter_weights host adapters state id
      exact ⟨weights, False.elim, fun _ => active⟩
  | deactivateAllAdapters =>
      simp only [step, perform, deactivateAllAdapters, resetBy, ClearsMarker]
      cases active : state.activeAdapter with
      | none => exact ⟨(resetKeys_nil host _).symm, fun _ => rfl, fun _ => rfl⟩
      | some id =>
          by_cases registered : id ∈ state.registeredAdapters
          · simp only [deactivateAdapter_eq host adapters state id registered, if_pos registered]
            by_cases complete : Completes host (adapters id).keys
            · rw [if_pos complete]
              refine ⟨rfl, fun _ => rfl, fun kept => absurd ?_ kept⟩
              intro other equal
              cases equal
              exact ⟨registered, complete⟩
            · rw [if_neg complete]
              exact ⟨rfl, fun clears => absurd (clears id rfl).2 complete, fun _ => active⟩
          · simp only [deactivateAdapter, if_neg registered, Outcome.andThen, resetKeys_nil,
              true_and]
            exact ⟨ fun clears => absurd (clears id rfl).1 registered, fun _ => active⟩
  | removeAllAdapters =>
      simp only [step, perform, removeAllAdapters, resetBy, ClearsMarker,
        deactivateEach_eq host adapters state _ (fun id member => member)]
      by_cases complete : ∀ id ∈ state.registeredAdapters, Completes host (adapters id).keys
      · rw [if_pos complete]
        exact ⟨rfl, fun _ => rfl, fun kept => absurd complete kept⟩
      · rw [if_neg complete]
        exact ⟨rfl, fun clears => absurd clears complete, fun _ => rfl⟩

/-- From a state that satisfies the invariant, the calls that keep it are the
harmless ones. -/
theorem step_invariant_iff (call : Call) (agree : WeightInvariant host adapters state) :
    WeightInvariant host adapters (step host adapters capacity state call) ↔
      Harmless host adapters capacity state call := by
  by_cases effective : ∃ id, call = .activateAdapter id ∧ id ∈ state.registeredAdapters ∧
      state.activeAdapter ≠ some id
  · obtain ⟨id, rfl, registered, apart⟩ := effective
    have after : step host adapters capacity state (.activateAdapter id) =
        { state with
          activations := state.activations ++ [id]
          lruAdaptorIds := updateLruPosition id state.lruAdaptorIds
          weights := loadStateDict host
            (fun key => ((adapters id).get? key).or (origLmHead host key)) state.weights
          activeAdapter := some id } := by
      simp [step, perform, activateAdapter, registered, apart]
    rw [after, WeightInvariant, activated_agrees_iff]
    constructor
    · intro clean
      refine ⟨?_, False.elim, ?_⟩
      · intro other equal _ _
        cases equal
        exact clean
      · intro _ other _ key member
        cases member
    · intro given
      rcases given with ⟨clean, _, _⟩
      exact clean id rfl registered apart
  · have passive : ∀ id, call = .activateAdapter id → id ∈ state.registeredAdapters →
        state.activeAdapter = some id := fun id equal registered =>
      by_contra fun apart => effective ⟨id, equal, registered, apart⟩
    obtain ⟨weights, cleared, kept⟩ := step_resets host adapters capacity state call passive
    have idle : ∀ id, call = .activateAdapter id → id ∈ state.registeredAdapters →
        state.activeAdapter ≠ some id → ∀ key ∈ host.keys, IsTokenformerP key → ¬ IsLmHead key →
          (adapters id).get? key = none → state.weights key = 0 :=
      fun id equal registered apart => absurd (passive id equal registered) apart
    unfold WeightInvariant Harmless
    rw [weights, and_iff_right idle]
    by_cases clears : ClearsMarker host adapters state call
    · rw [cleared clears, cleared_agrees_iff host adapters _ _ agree]
      exact ⟨fun covered => ⟨fun _ => covered, fun keeps => absurd clears keeps⟩,
        fun both => both.1 clears⟩
    · rw [kept clears, reset_agrees_iff host adapters _ _ agree _
        (resetBy_subset host adapters capacity state call)]
      exact ⟨fun spared => ⟨fun now => absurd now clears, fun _ => spared⟩,
        fun both => both.2 clears⟩

theorem initial_invariant : WeightInvariant host adapters (initialManager host) where
  tensors := fun _ equal => (Option.some_ne_none _ equal.symm).elim
  otherHeads := fun _ equal => (Option.some_ne_none _ equal.symm).elim
  otherTokenformers := fun _ equal => (Option.some_ne_none _ equal.symm).elim
  heads := fun _ _ _ _ => rfl
  tokenformers := fun _ key present tokenformer => host.zeroed key present tokenformer

/-- The weights follow the active marker through a whole run exactly when every
call of it is harmless. -/
theorem weight_invariant_iff (calls : List Call) :
    Always (step host adapters capacity) (WeightInvariant host adapters) (initialManager host)
        calls ↔
      AllSteps (step host adapters capacity) (Harmless host adapters capacity)
        (initialManager host) calls := by
  rw [always_iff_allSteps, and_iff_right (initial_invariant host adapters)]
  refine allSteps_iff _ (WeightInvariant host adapters) (fun _ _ => True) _ _ ?_ ?_ _ _
    (initial_invariant host adapters) ?_
  · intro state call agree _
    exact step_invariant_iff host adapters capacity state call agree
  · intro state call _ _ kept
    exact kept
  · exact allSteps_of_forall _ _ (fun _ _ => trivial) _ _

end Calls

def smallHost : Host Int where
  keys := [['t', 'o', 'k', 'e', 'n', 'f', 'o', 'r', 'm', 'e', 'r', '_', 'p']]
  initial := fun _ => 0
  zeroed := fun _ _ _ => rfl

def smallAdapters (id : Nat) : Dict Key Int where
  entries := [(['t', 'o', 'k', 'e', 'n', 'f', 'o', 'r', 'm', 'e', 'r', '_', 'p'], id)]
  nodup := List.nodup_singleton _

/-- Deactivating the active adapter zeroes its parameter and leaves it marked active. -/
theorem weight_invariant_fails :
    ¬ ∀ (host : Host Int) (adapters : Nat → Dict Key Int) (capacity : Nat) (calls : List Call),
      Always (step host adapters capacity) (WeightInvariant host adapters) (initialManager host)
        calls := by
  intro claimed
  let calls : List Call := [.addAdapter 1, .activateAdapter 1, .deactivateAdapter 1]
  have last := (always_iff_prefixes _ _ _ _).mp (claimed smallHost smallAdapters 4 calls)
    calls [] (by simp)
  have held := last.tensors 1 (by decide) _ List.mem_cons_self 1 (by decide)
  exact absurd held (by decide)

end ScalarLM.Adapter
