import ScalarLM.Training.FsdpForward

/-! The calls that all ranks make of a wrapped model, one after the other. -/

namespace ScalarLM.Training

open ScalarLM.Computation
open Lockstep (Agree)
open Loop (Transfer)

section Wrapping

variable {α : Type}

def shardAttributes (path : Path) (parameters : Dict Name Nat) : Dict Name (Attribute α) :=
  Dict.ofAssignments ((ownParameters parameters).map fun entry =>
    (entry.1, .memory (.shard (path ++ [entry.1]) entry.2)))

def wrappedModule (root : Module) (path : Path) : ModuleState α :=
  match root.parametersAt path with
  | none => ⟨.empty, .empty⟩
  | some parameters =>
      if path = [] ∨ parameters.entries.isEmpty then ⟨parameters.mapValues .whole, .empty⟩
      else ⟨shardParameters path parameters, shardAttributes path parameters⟩

def wrappedState (root : Module) : ProcessState α := ⟨wrappedModule root, none⟩

variable (model : Model α) (elementSize : Nat → Nat)

def getModelMemoryFootprint : Nat :=
  (model.namedParameters.map fun entry =>
    (model.tensors entry.2).numel * elementSize entry.2).sum

def shouldCheckpoint (parameters : Dict Name Nat) (children : Children) : Bool :=
  decide (32 * 1024 ^ 3 < getModelMemoryFootprint model elementSize) &&
    !children.names.isEmpty &&
    (ownParameters parameters).any fun entry => model.trainable entry.2

mutual

def Module.checkpointed (path : Path) : Module → List Path
  | .mk parameters children =>
      if parameters.entries.isEmpty then children.checkpointed [] path
      else
        (if shouldCheckpoint model elementSize parameters children then [path] else []) ++
          children.checkpointed ((ownParameters parameters).map fun entry => shardName entry.1)
            path

def Children.checkpointed (replaced : List Name) (path : Path) : Children → List Path
  | .nil => []
  | .cons name child rest =>
      if name ∈ replaced then rest.checkpointed replaced path
      else child.checkpointed (path ++ [name]) ++ rest.checkpointed replaced path

end

def checkpointedLayers : List Path := model.root.children.checkpointed model elementSize [] []

end Wrapping

/-- What autograd does in a backward pass: it fires the full backward hook of a layer,
recomputes a checkpointed layer, or takes the gather of a parameter back. -/
inductive BackwardStep (V : Type) where
  | hook (layer : Path)
  | recompute (layer : Path) (input : V) (saves : Nat)
  | reduceScatter (parameter : Path)

inductive Call (V : Type) where
  | forward (input : V)
  | forwardBackward (input : V) (steps : List (BackwardStep V))
  | unwrapModel

inductive Output (α V : Type) where
  | value (value : V)
  | stateDict (stateDict : Dict Path (Tensor α))

section Calls

variable {α β V : Type} [Zero α] (toFloat32 : α → β) (toOrigDtype : β → α) (worldSize : Nat)
  (network : Network α V) (elementSize : Nat → Nat)
  (shards : Nat → Shards worldSize network.model) (rank : Nat)

def wrappedModel : Wrapped :=
  simpleFSDP worldSize rank network.model.tensors network.model.root

def simpleForward (input : V) : Process α V :=
  (wrappedModel worldSize network rank).call toFloat32 toOrigDtype worldSize
    (fun sender => (shards sender).values) rank network.forward [] input

def backwardStep : BackwardStep V → Process α Unit
  | .hook layer => freeParams layer
  | .recompute layer input saves =>
      if layer ∈ checkpointedLayers network.model elementSize then
        (wrappedModel worldSize network rank).recompute toFloat32 toOrigDtype worldSize
          (fun sender => (shards sender).values) rank network.forward layer saves [] input
      else returns ()
  | .reduceScatter parameter => issues (.reduceScatter parameter)

/-- `unwrap_model`, which reads registered parameters only. -/
def unwrapCall {σ : Type} : Computation σ Transfer Cause (Output α V) := fun state =>
  ⟨(Loop.unwrapLayersIssues network.model.trainable []
      (wrappedModel worldSize network rank).children).operations, state,
    match unwrapModel toFloat32 toOrigDtype worldSize rank network.model.trainable
      (fun sender => (shards sender).values) (wrappedModel worldSize network rank) with
    | none => .error .raised
    | some stateDict => .ok (.stateDict stateDict)⟩

def callProcess : Call V → Process α (Output α V)
  | .forward input =>
      (simpleForward toFloat32 toOrigDtype worldSize network shards rank input).andThen
        fun result => returns (.value result)
  | .forwardBackward input steps =>
      (simpleForward toFloat32 toOrigDtype worldSize network shards rank input).andThen
        fun result =>
      (forEach (backwardStep toFloat32 toOrigDtype worldSize network elementSize shards rank)
        steps).andThen fun _ => returns (.value result)
  | .unwrapModel => unwrapCall toFloat32 toOrigDtype worldSize network shards rank

end Calls

section Runs

/-- All ranks: their parameters, their modules, and whether they wait in a collective
operation that not all of them reach. -/
structure Ranks (α : Type) (worldSize : Nat) (model : Model α) where
  shards : Nat → Shards worldSize model
  processes : Nat → ProcessState α
  waiting : Bool

/-- Between two calls the optimizer, or whoever else, may change the parameters. -/
inductive FsdpEvent {α : Type} (V : Type) (worldSize : Nat) (model : Model α) where
  | assign (shards : Nat → Shards worldSize model)
  | call (calls : Nat → Call V)

variable {α β V : Type} [Zero α] (toFloat32 : α → β) (toOrigDtype : β → α) (worldSize : Nat)
  (network : Network α V) (elementSize : Nat → Nat)

def Ranks.start (shards : Nat → Shards worldSize network.model) :
    Ranks α worldSize network.model where
  shards := shards
  processes _ := wrappedState network.model.root
  waiting := false

def Ranks.run (ranks : Ranks α worldSize network.model) (calls : Nat → Call V) (rank : Nat) :
    Ran (ProcessState α) Transfer Cause (Output α V) :=
  callProcess toFloat32 toOrigDtype worldSize network elementSize ranks.shards rank (calls rank)
    (ranks.processes rank)

/-- The collective operations of a call meet: each rank's are the same, in the same order. -/
def Ranks.Meet (ranks : Ranks α worldSize network.model) (calls : Nat → Call V) : Prop :=
  Agree worldSize fun rank =>
    (ranks.run toFloat32 toOrigDtype worldSize network elementSize calls rank).issued

instance (ranks : Ranks α worldSize network.model) (calls : Nat → Call V) :
    Decidable (ranks.Meet toFloat32 toOrigDtype worldSize network elementSize calls) :=
  inferInstanceAs (Decidable (Agree _ _))

def Ranks.returned (ranks : Ranks α worldSize network.model) (calls : Nat → Call V)
    (rank : Nat) : Option (Output α V) :=
  if ranks.waiting = false ∧
      ranks.Meet toFloat32 toOrigDtype worldSize network elementSize calls then
    (ranks.run toFloat32 toOrigDtype worldSize network elementSize calls rank).result.toOption
  else none

def fsdpStep (ranks : Ranks α worldSize network.model) :
    FsdpEvent V worldSize network.model → Ranks α worldSize network.model
  | .assign shards => { ranks with shards := shards }
  | .call calls =>
      if ranks.waiting then ranks
      else if ranks.Meet toFloat32 toOrigDtype worldSize network elementSize calls then
        { ranks with
          processes := fun rank =>
            (ranks.run toFloat32 toOrigDtype worldSize network elementSize calls rank).state }
      else { ranks with waiting := true }

end Runs

end ScalarLM.Training
