import ScalarLM.Lib.Transition
import ScalarLM.Loop.RankProgram
import ScalarLM.Training.Network

/-! The forward and backward passes of a wrapped model on one rank, with the attributes that
they set and delete on the wrapped modules, and the calls that all ranks make together. -/

namespace ScalarLM.Training

open ScalarLM.Computation
open Loop (Transfer)

/-- A tensor that is an attribute of a module: one in the memory of a registered parameter,
or a full tensor. -/
inductive Attribute (α : Type) where
  | memory (slot : Slot)
  | full (tensor : Tensor α)

/-- `_parameters` of a module, and the tensors in its `__dict__`. -/
structure ModuleState (α : Type) where
  parameters : Dict Name Slot
  attributes : Dict Name (Attribute α)

namespace ModuleState

variable {α : Type}

/-- `getattr`, which finds what is in `__dict__` first. -/
def getAttr (module : ModuleState α) (name : Name) : Option (Attribute α) :=
  (module.attributes.get? name).or ((module.parameters.get? name).map .memory)

/-- `setattr` of a tensor that is no parameter; it raises where a parameter is registered. -/
def setAttr (module : ModuleState α) (name : Name) (value : Attribute α) :
    Option (ModuleState α) :=
  if name ∈ module.parameters.keys then none
  else some { module with attributes := module.attributes.set name value }

def delAttr (module : ModuleState α) (name : Name) : ModuleState α :=
  if name ∈ module.parameters.keys then
    { module with parameters := module.parameters.erase name }
  else { module with attributes := module.attributes.erase name }

end ModuleState

/-- Equal `data_ptr`s. An empty tensor has a null pointer, and so has an empty shard. -/
def Attribute.sharesPointer {α : Type} (slot : Slot) : Attribute α → Bool
  | .memory other => decide (other = slot)
  | .full tensor => tensor.data.isEmpty

def ModuleState.free {α : Type} (module : ModuleState α) (name : Name) (slot : Slot) :
    Option (ModuleState α) :=
  let kept := match module.getAttr name with
    | none => module
    | some held => if held.sharesPointer slot then module else module.delAttr name
  kept.setAttr name (.memory slot)

/-- The modules of a rank's model. `saves` tells a recomputation of `torch.utils.checkpoint`
how many more tensors the backward pass needs before the last one. -/
structure ProcessState (α : Type) where
  modules : Path → ModuleState α
  saves : Option Nat

/-- An exception; the one that ends a recomputation stays inside `checkpoint`. -/
inductive Cause where
  | raised
  | stopped

abbrev Process (α ρ : Type) := Computation (ProcessState α) Transfer Cause ρ

def ProcessState.withModule {α : Type} (state : ProcessState α) (path : Path)
    (module : ModuleState α) : ProcessState α where
  modules := fun other => if other = path then module else state.modules other
  saves := state.saves

def onModule {α : Type} (path : Path) (change : ModuleState α → Option (ModuleState α)) :
    Process α Unit := fun state =>
  match change (state.modules path) with
  | none => ⟨[], state, .error .raised⟩
  | some module => ⟨[], state.withModule path module, .ok ()⟩

def ProcessState.namedParameters {α : Type} (state : ProcessState α) (path : Path) :
    List (Name × Slot) :=
  firstBy Prod.snd [] (state.modules path).parameters.entries

/-- An operation keeps a tensor; a recomputation stops when it has the last one. -/
def save {α : Type} : Process α Unit := fun state =>
  match state.saves with
  | none => ⟨[], state, .ok ()⟩
  | some 0 => ⟨[], state, .error .stopped⟩
  | some (left + 1) => ⟨[], { state with saves := some left }, .ok ()⟩

section Layers

variable {α β V : Type} [Zero α] (toFloat32 : α → β) (toOrigDtype : β → α) (worldSize : Nat)
  (shards : Nat → Slot → Tensor α) (rank : Nat)

def gatherParameter (path : Path) (metadata : Dict Name (List ShardMetadata))
    (entry : Name × Slot) : Process α Unit :=
  if shardPrefix <+: entry.1 then
    let name := entry.1.drop shardPrefix.length
    match metadata.get? name with
    | none => throws .raised
    | some metadataDict =>
        (issues (.gather (path ++ [name]))).andThen fun _ =>
        match collectivesAllGather toFloat32 toOrigDtype worldSize
          (fun sender => (shards sender entry.2).data) metadataDict rank with
        | none => throws .raised
        | some fullTensor => onModule path fun module => module.setAttr name (.full fullTensor)
  else returns ()

def gatherAllParameters (path : Path) (metadata : Dict Name (List ShardMetadata)) :
    Process α Unit := fun state =>
  forEach (gatherParameter toFloat32 toOrigDtype worldSize shards rank path metadata)
    (state.namedParameters path) state

def freeParameter (path : Path) (entry : Name × Slot) : Process α Unit :=
  if shardPrefix <+: entry.1 then
    onModule path fun module => module.free (entry.1.drop shardPrefix.length) entry.2
  else returns ()

def freeParams (path : Path) : Process α Unit := fun state =>
  forEach (freeParameter path) (state.namedParameters path) state

def readAttribute (path : Path) (name : Name) : Process α (Tensor α) := fun state =>
  match (state.modules path).getAttr name with
  | none => ⟨[], state, .error .raised⟩
  | some (.memory slot) => ⟨[], state, .ok (shards rank slot)⟩
  | some (.full tensor) => ⟨[], state, .ok tensor⟩

def moduleAnswers (path : Path) (call : Name → V → Process α V) :
    ∀ op : Ask V, Process α (op.Answer α V)
  | .read name => readAttribute shards rank path name
  | .call child input => call child input
  | .save => save

variable (forward : Path → ForwardFunction α V)

mutual

/-- A module, or `FSDPLayer.forward_op`. In the forward pass `torch.utils.checkpoint` runs
the function that it is given like any other. -/
def Wrapped.call (path : Path) : Wrapped → V → Process α V
  | .plain _ children, input =>
      (forward path input).run (moduleAnswers shards rank path (children.call path))
  | .fsdpLayer metadata module, input =>
      (gatherAllParameters toFloat32 toOrigDtype worldSize shards rank path metadata).andThen
        fun _ =>
      (module.call path input).andThen fun result =>
      (freeParams path).andThen fun _ => returns result

def WrappedChildren.call (path : Path) : WrappedChildren → Name → V → Process α V
  | .nil, _, _ => throws .raised
  | .cons name child rest, wanted, input =>
      if name = wanted then child.call (path ++ [name]) input else rest.call path wanted input

end

/-- A recomputation, which ends where the tensors of the backward pass are there. -/
def untilSaved (saves : Nat) (computation : Process α V) : Process α Unit := fun state =>
  let ran := computation { state with saves := some saves }
  ⟨ran.issued, { ran.state with saves := none },
    match ran.result with
    | .error .raised => .error .raised
    | _ => .ok ()⟩

mutual

def Wrapped.recompute (target : Path) (saves : Nat) (path : Path) :
    Wrapped → V → Process α Unit
  | .plain _ children, input => children.recompute target saves path input
  | .fsdpLayer metadata module, input =>
      if path = target then
        untilSaved saves (Wrapped.call toFloat32 toOrigDtype worldSize shards rank forward path
          (.fsdpLayer metadata module) input)
      else module.recompute target saves path input

def WrappedChildren.recompute (target : Path) (saves : Nat) (path : Path) :
    WrappedChildren → V → Process α Unit
  | .nil, _ => returns ()
  | .cons name child rest, input =>
      if path ++ [name] <+: target then child.recompute target saves (path ++ [name]) input
      else rest.recompute target saves path input

end

end Layers

end ScalarLM.Training
