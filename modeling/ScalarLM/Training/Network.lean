import ScalarLM.Lib.Program
import ScalarLM.Training.Resume

/-! A model with the forward functions of its modules, and what it returns on its own. -/

namespace ScalarLM.Training

section Trees

mutual

def Module.Everywhere (property : Path → Dict Name Nat → Children → Prop) (path : Path) :
    Module → Prop
  | .mk parameters children =>
      property path parameters children ∧ children.Everywhere property path

def Children.Everywhere (property : Path → Dict Name Nat → Children → Prop) (path : Path) :
    Children → Prop
  | .nil => True
  | .cons name child rest =>
      child.Everywhere property (path ++ [name]) ∧ rest.Everywhere property path

end

def Children.get? (wanted : Name) : Children → Option Module
  | .nil => none
  | .cons name child rest => if name = wanted then some child else rest.get? wanted

def Module.parametersAt : Path → Module → Option (Dict Name Nat)
  | [], module => some module.parameters
  | name :: rest, module => (module.children.get? name).bind (parametersAt rest)

end Trees

/-- What the forward function of a module asks for: a parameter of its own, or a child at a
value. `save` is an operation that keeps a tensor for the backward pass. -/
inductive Ask (V : Type) where
  | read (name : Name)
  | call (child : Name) (input : V)
  | save

def Ask.Answer (α V : Type) : Ask V → Type
  | .read _ => Tensor α
  | .call _ _ => V
  | .save => Unit

abbrev ForwardFunction (α V : Type) := V → Program (Ask V) (Ask.Answer α V) V

def Offered {V : Type} (parameters : Dict Name Nat) (children : Children) : Ask V → Prop
  | .read name => name ∈ parameters.keys
  | .call child _ => child ∈ children.names
  | .save => True

/-- A model whose modules' forward functions are arbitrary functions of their own parameters
and of their children, and which leaves the prefix of the shards alone. -/
structure Network (α V : Type) where
  model : Model α
  forward : Path → ForwardFunction α V
  offered : model.root.Everywhere (fun path parameters children =>
    ∀ input, (forward path input).Within (Offered parameters children)) []
  unreserved : model.root.Everywhere (fun _ parameters _ =>
    ∀ name ∈ parameters.keys, ¬ shardPrefix <+: name) []

/-- The values of all parameters of one rank, of the shapes that wrapping gives them. -/
structure Shards {α : Type} (worldSize : Nat) (model : Model α) where
  values : Slot → Tensor α
  shaped : ∀ slot, (values slot).shape = slotShape worldSize model slot

instance decidableEntry (entry : Name × Nat) (entries : List (Name × Nat)) :
    Decidable (entry ∈ entries) :=
  List.instDecidableMemOfLawfulBEq entry entries

section Plain

variable {α β V : Type} [Zero α] (toFloat32 : α → β) (toOrigDtype : β → α) (worldSize : Nat)
  (model : Model α) (forward : Path → ForwardFunction α V)
  (shards : Nat → Shards worldSize model) (rank : Nat)

def gatherShards (place : Path) (parameter : Nat) : Option (Tensor α) :=
  collectivesAllGather toFloat32 toOrigDtype worldSize
    (fun sender => ((shards sender).values (.shard place parameter)).data)
    (shardTensor worldSize (fun _ => model.tensors parameter) rank).2 rank

/-- A parameter of the plain model in which the gather of the current shards takes the place
of every wrapped parameter. Neither those of the root nor second names are wrapped. -/
def currentParameter (path : Path) (parameters : Dict Name Nat) (name : Name) :
    Option (Tensor α) :=
  (parameters.get? name).bind fun parameter =>
    if path ≠ [] ∧ (name, parameter) ∈ ownParameters parameters then
      gatherShards toFloat32 toOrigDtype worldSize model shards rank (path ++ [name]) parameter
    else some ((shards rank).values (.whole parameter))

def plainAnswers (read : Name → Option (Tensor α)) (call : Name → V → Option V) :
    ∀ op : Ask V, Option (op.Answer α V)
  | .read name => read name
  | .call child input => call child input
  | .save => some ()

mutual

def Module.plainForward (path : Path) : Module → V → Option V
  | .mk parameters children, input =>
      (forward path input).evaluate (plainAnswers
        (currentParameter toFloat32 toOrigDtype worldSize model shards rank path parameters)
        (children.plainForward path))

def Children.plainForward (path : Path) : Children → Name → V → Option V
  | .nil, _, _ => none
  | .cons name child rest, wanted, input =>
      if name = wanted then child.plainForward (path ++ [name]) input
      else rest.plainForward path wanted input

end

end Plain

end ScalarLM.Training
