import ScalarLM.Lib.Dict

/-! The tokenformer adapters of a served model and the manager that swaps them.

The values of a key are the tensors of the shape that the model's parameter of
that name has. -/

namespace ScalarLM.Adapter

abbrev Key := List Char

def IsTokenformer (key : Key) : Prop :=
  ['t', 'o', 'k', 'e', 'n', 'f', 'o', 'r', 'm', 'e', 'r'] <:+: key

def IsTokenformerP (key : Key) : Prop :=
  ['t', 'o', 'k', 'e', 'n', 'f', 'o', 'r', 'm', 'e', 'r', '_', 'p'] <:+: key

def IsLmHead (key : Key) : Prop := ['l', 'm', '_', 'h', 'e', 'a', 'd'] <:+: key

instance : DecidablePred IsTokenformerP :=
  fun key => inferInstanceAs (Decidable (_ <:+: key))

instance : DecidablePred IsLmHead := fun key => inferInstanceAs (Decidable (_ <:+: key))

/-- The model as the manager finds it: its state dict, in which the surgeon has
just put a zero `tokenformer_p` for each adapter module. -/
structure Host (V : Type) [Zero V] where
  keys : List Key
  initial : Key → V
  zeroed : ∀ key ∈ keys, IsTokenformerP key → initial key = 0

/-- The manager's state. The adapters are objects known by their id; the list of
activations is the history of the calls that found their adapter. -/
structure Manager (V : Type) where
  weights : Key → V
  registeredAdapters : List Nat
  activeAdapter : Option Nat
  lruAdaptorIds : List Nat
  activations : List Nat

/-- The state after a call and what it returned; `none` if it raised. A call that
returns nothing counts as false. -/
abbrev Outcome (V : Type) := Manager V × Option Bool

variable {V : Type}

def Outcome.andThen (first : Outcome V) (next : Manager V → Outcome V) : Outcome V :=
  match first with
  | (state, none) => (state, none)
  | (state, some _) => next state

section Calls

variable [Zero V] (host : Host V) (adapters : Nat → Dict Key V) (capacity : Nat)

def initialManager : Manager V where
  weights := host.initial
  registeredAdapters := []
  activeAdapter := none
  lruAdaptorIds := []
  activations := []

def origLmHead (key : Key) : Option V :=
  if key ∈ host.keys ∧ IsLmHead key then some (host.initial key) else none

/-- `load_state_dict(strict=False)` of the current state dict with the given
entries put in; keys that the model does not have are left out. -/
def loadStateDict (given : Key → Option V) (weights : Key → V) : Key → V := fun key =>
  if key ∈ host.keys then (given key).getD (weights key) else weights key

def updateLruPosition (id : Nat) (lruAdaptorIds : List Nat) : List Nat :=
  (if id ∈ lruAdaptorIds then lruAdaptorIds.erase id else lruAdaptorIds) ++ [id]

def activateAdapter (id : Nat) (state : Manager V) : Outcome V :=
  if id ∈ state.registeredAdapters then
    let state := { state with activations := state.activations ++ [id] }
    if state.activeAdapter = some id then
      (state, some false)
    else
      ({ state with
          lruAdaptorIds := updateLruPosition id state.lruAdaptorIds
          -- the adapter's tensors come after the original heads
          weights := loadStateDict host
            (fun key => ((adapters id).get? key).or (origLmHead host key)) state.weights
          activeAdapter := some id }, some true)
  else
    (state, none)

/-- The loop of `_deactivate_adapter`: a `tokenformer_p` is zeroed in place, an
original head goes into the state dict that is loaded afterwards. A key that the
model lacks ends the loop. -/
def deactivateKeys : List Key → (Key → V) → (Key → Option V) →
    (Key → V) × Option (Key → Option V)
  | [], weights, given => (weights, some given)
  | key :: rest, weights, given =>
      if IsTokenformerP key then
        if key ∈ host.keys then
          deactivateKeys rest (fun other => if other = key then 0 else weights other) given
        else (weights, none)
      else if IsLmHead key then
        match origLmHead host key with
        | some head =>
            deactivateKeys rest weights
              (fun other => if other = key then some head else given other)
        | none => (weights, none)
      else deactivateKeys rest weights given

def deactivateAdapter (id : Nat) (state : Manager V) : Outcome V :=
  if id ∈ state.registeredAdapters then
    match deactivateKeys host (adapters id).keys state.weights (fun _ => none) with
    | (weights, some given) =>
        ({ state with weights := loadStateDict host given weights }, some false)
    | (weights, none) => ({ state with weights := weights }, none)
  else
    (state, none)

/-- `_remove_adapter`, which only warns about an unknown adapter. -/
def removeRegistered (id : Nat) (state : Manager V) : Outcome V :=
  if id ∈ state.registeredAdapters then
    Outcome.andThen
      (if state.activeAdapter = some id then deactivateAdapter host adapters id state
        else (state, some false))
      fun state =>
        ({ state with registeredAdapters := state.registeredAdapters.erase id }, some false)
  else
    (state, some false)

/-- `remove_adapter` pops the adapter once more after `_remove_adapter`. -/
def removeAdapter (id : Nat) (state : Manager V) : Outcome V :=
  Outcome.andThen (removeRegistered host adapters id state) fun state =>
    ({ state with registeredAdapters := state.registeredAdapters.erase id },
      some (decide (id ∈ state.registeredAdapters)))

def registerAdapter (id : Nat) (state : Manager V) : Outcome V :=
  ({ state with
      registeredAdapters :=
        if id ∈ state.registeredAdapters then state.registeredAdapters
        else state.registeredAdapters ++ [id]
      lruAdaptorIds := state.lruAdaptorIds ++ [id] }, some true)

def addAdapter (id : Nat) (state : Manager V) : Outcome V :=
  if capacity ≤ state.registeredAdapters.length then
    match state.lruAdaptorIds with
    | [] => (state, none)
    | lru :: rest =>
        Outcome.andThen (removeAdapter host adapters lru { state with lruAdaptorIds := rest })
          (registerAdapter id)
  else
    registerAdapter id state

def deactivateAllAdapters (state : Manager V) : Outcome V :=
  Outcome.andThen
    (match state.activeAdapter with
      | some id => deactivateAdapter host adapters id state
      | none => (state, some false))
    fun state => ({ state with activeAdapter := none }, some false)

def deactivateEach : List Nat → Manager V → Outcome V
  | [], state => (state, some false)
  | id :: rest, state =>
      Outcome.andThen (deactivateAdapter host adapters id state) (deactivateEach rest)

def removeAllAdapters (state : Manager V) : Outcome V :=
  Outcome.andThen (deactivateEach host adapters state.registeredAdapters state) fun state =>
    ({ state with registeredAdapters := [], activeAdapter := none }, some false)

end Calls

inductive Call where
  | addAdapter (id : Nat)
  | activateAdapter (id : Nat)
  | deactivateAdapter (id : Nat)
  | removeAdapter (id : Nat)
  | deactivateAllAdapters
  | removeAllAdapters
  deriving DecidableEq, Repr

section Step

variable [Zero V] (host : Host V) (adapters : Nat → Dict Key V) (capacity : Nat)

def perform (state : Manager V) : Call → Outcome V
  | .addAdapter id => addAdapter host adapters capacity id state
  | .activateAdapter id => activateAdapter host adapters id state
  | .deactivateAdapter id => deactivateAdapter host adapters id state
  | .removeAdapter id => removeAdapter host adapters id state
  | .deactivateAllAdapters => deactivateAllAdapters host adapters state
  | .removeAllAdapters => removeAllAdapters host adapters state

/-- The manager goes on after a call that raised, with what the call had done. -/
def step (state : Manager V) (call : Call) : Manager V :=
  (perform host adapters capacity state call).1

end Step

end ScalarLM.Adapter
