import Mathlib.Data.List.Infix
import Mathlib.Logic.Function.Basic
import ScalarLM.Training.ModuleTree

/-! The insertion of adapters into a module tree, while `named_modules` is walking over it. -/

namespace ScalarLM.Training

/-- The modules of a model before the insertion, each by its dotted path, with the names of its
children in their order. -/
structure NamedTree where
  children : Path → List Name
  nodup : ∀ path, (children path).Nodup
  depth : Nat
  bounded : ∀ path, depth ≤ path.length → children path = []

def NamedTree.Contains (tree : NamedTree) (path : Path) : Prop :=
  ∀ front name, front ++ [name] <+: path → name ∈ tree.children front

/-- A module object: one of the model's own, or an adapter by its number. -/
inductive ModuleRef where
  | original (path : Path)
  | adapter (number : Nat)
  deriving DecidableEq

abbrev ModuleHeap := ModuleRef → Dict Name ModuleRef

/-- `setattr` of a module, which adds the name at the end when it is new. -/
def setModule (heap : ModuleHeap) (obj : ModuleRef) (name : Name) (value : ModuleRef) :
    ModuleHeap :=
  Function.update heap obj ((heap obj).set name value)

def layerName : Name := ['l', 'a', 'y', 'e', 'r']

def mlpWord : List Char := ['m', 'l', 'p']

def isMlpLayer (path : Path) : Bool :=
  match path.getLast? with
  | some name => mlpWord <:+: name
  | none => false

/-- The model while adapters are put in, and the memo of `named_modules`. -/
structure Surgery where
  heap : ModuleHeap
  memo : List ModuleRef
  adapters : Nat

/-- `AttributeError` of a path that leads nowhere, and `RuntimeError` of a dictionary that has
changed its size while it was walked over. -/
inductive SurgeryStop where
  | outOfFuel
  | attributeError
  | runtimeError
  deriving DecidableEq

section Insertion

/-- Whether an attribute that is no child module leads to something that may be set. What it
leads to is no module of the model. -/
abbrev OtherAttributes := ModuleRef → Path → Bool

variable (others : OtherAttributes)

def recursiveSetattr (heap : ModuleHeap) (value : ModuleRef) :
    ModuleRef → Path → Except SurgeryStop ModuleHeap
  | _, [] => .error .attributeError
  | obj, [name] => .ok (setModule heap obj name value)
  | obj, name :: next :: rest =>
      match (heap obj).get? name with
      | some child => recursiveSetattr heap value child (next :: rest)
      | none =>
          if others obj (name :: next :: rest) then .ok heap else .error .attributeError

/-- `update_mlp`; `update_attn` does nothing. -/
def updateMlp (path : Path) (layer : ModuleRef) (surgery : Surgery) :
    Except SurgeryStop Surgery :=
  if isMlpLayer path then do
    let adapter := ModuleRef.adapter surgery.adapters
    let built := Function.update surgery.heap adapter (Dict.empty.set layerName layer)
    let heap ← recursiveSetattr others built adapter (.original []) path
    return { surgery with heap := heap, adapters := surgery.adapters + 1 }
  else return surgery

/-- A `named_modules` in the middle of its loop: the module with its path, the place in its
`_modules`, and their number when the loop began. -/
structure WalkFrame where
  module : ModuleRef
  path : Path
  position : Nat
  size : Nat

/-- The loop over `named_modules`: each module that is yielded is updated before the walk goes
on. -/
def walkModules : Nat → List WalkFrame → Surgery → Except SurgeryStop Surgery
  | 0, _, _ => .error .outOfFuel
  | _ + 1, [], surgery => .ok surgery
  | fuel + 1, frame :: stack, surgery =>
      let modules := (surgery.heap frame.module).entries
      if modules.length ≠ frame.size then .error .runtimeError
      else
        match modules[frame.position]? with
        | none => walkModules fuel stack surgery
        | some (name, child) =>
            let next := { frame with position := frame.position + 1 }
            if child ∈ surgery.memo then walkModules fuel (next :: stack) surgery
            else
              match updateMlp others (frame.path ++ [name]) child
                  { surgery with memo := child :: surgery.memo } with
              | .error stop => .error stop
              | .ok updated =>
                  walkModules fuel
                    (⟨child, frame.path ++ [name], 0, (updated.heap child).entries.length⟩ ::
                      next :: stack) updated

def NamedTree.modules (tree : NamedTree) (path : Path) : Dict Name ModuleRef where
  entries := (tree.children path).map fun name => (name, .original (path ++ [name]))
  nodup := by
    have names : ((tree.children path).map fun name => (name, ModuleRef.original
        (path ++ [name]))).map Prod.fst = tree.children path := by
      rw [List.map_map]
      exact List.map_id _
    rw [names]
    exact tree.nodup path

def NamedTree.heap (tree : NamedTree) : ModuleHeap
  | .original path => tree.modules path
  | .adapter _ => Dict.empty

/-- `insert_adapter_modules`. The model itself comes first; its name is empty. -/
def insertAdapterModules (tree : NamedTree) (fuel : Nat) : Except SurgeryStop Surgery :=
  walkModules others fuel [⟨.original [], [], 0, (tree.children []).length⟩]
    ⟨tree.heap, [.original []], 0⟩

end Insertion

section Exactness

/-- Each module of the model holds its children at their places and nothing else, those with
`mlp` in their names as the layer of an adapter and the others by themselves. -/
def Exact (tree : NamedTree) (heap : ModuleHeap) : Prop :=
  ∀ path, tree.Contains path → ∃ wrapper : Name → Nat,
    (heap (.original path)).entries = (tree.children path).map (fun name =>
      (name, if isMlpLayer (path ++ [name]) then .adapter (wrapper name)
        else .original (path ++ [name]))) ∧
    ∀ name ∈ tree.children path, isMlpLayer (path ++ [name]) = true →
      (heap (.adapter (wrapper name))).entries = [(layerName, .original (path ++ [name]))]

/-- The insertion comes to an end without raising, and its result is exact. -/
def InsertsExactly (others : OtherAttributes) (tree : NamedTree) : Prop :=
  ∃ fuel surgery, insertAdapterModules others tree fuel = .ok surgery ∧ Exact tree surgery.heap

/-- A module with `mlp` in its name that lies inside another one. -/
structure Nested (tree : NamedTree) (outer inner : Path) : Prop where
  contained : tree.Contains inner
  inside : outer <+: inner
  proper : outer ≠ inner
  outerMlp : isMlpLayer outer = true
  innerMlp : isMlpLayer inner = true

end Exactness

end ScalarLM.Training
