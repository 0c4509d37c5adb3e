import ScalarLM.Training.GatherShard
import ScalarLM.Training.ModuleTree

/-! Wrapping a module tree in sharding layers and unwrapping it again. -/

namespace ScalarLM.Training

/-- A parameter object of the wrapped model: one the model had, or the local
shard that replaced the parameter of the given name. -/
inductive Slot where
  | whole (parameter : Nat)
  | shard (place : Path) (parameter : Nat)
  deriving DecidableEq, Repr

def Slot.parameter : Slot → Nat
  | .whole parameter => parameter
  | .shard _ parameter => parameter

mutual

/-- A wrapped tree: an `FSDPLayer` has the metadata of its shards and a single
child called `module`. -/
inductive Wrapped where
  | plain (parameters : Dict Name Slot) (children : WrappedChildren)
  | fsdpLayer (shardedParameterMetadata : Dict Name (List ShardMetadata)) (module : Wrapped)

inductive WrappedChildren where
  | nil
  | cons (name : Name) (child : Wrapped) (rest : WrappedChildren)

end

def Wrapped.parameters : Wrapped → Dict Name Slot
  | .plain parameters _ => parameters
  | .fsdpLayer _ _ => .empty

def moduleName : Name := ['m', 'o', 'd', 'u', 'l', 'e']

def Wrapped.children : Wrapped → WrappedChildren
  | .plain _ children => children
  | .fsdpLayer _ module => .cons moduleName module .nil

mutual

def Wrapped.members (path : Path) : Wrapped → List (Path × Slot)
  | .plain parameters children =>
      parameters.entries.map (fun entry => (path ++ [entry.1], entry.2)) ++
        children.members path
  | .fsdpLayer _ module => module.members (path ++ [moduleName])

def WrappedChildren.members (path : Path) : WrappedChildren → List (Path × Slot)
  | .nil => []
  | .cons name child rest => child.members (path ++ [name]) ++ rest.members path

end

def shardPrefix : Name := ['s', 'h', 'a', 'r', 'd', '_']

def shardName (name : Name) : Name := shardPrefix ++ name

def shardParameter (path : Path) (parameters : Dict Name Slot) (entry : Name × Nat) :
    Dict Name Slot :=
  (parameters.set (shardName entry.1) (.shard (path ++ [entry.1]) entry.2)).erase entry.1

/-- A module's own parameters, a shared one once. -/
def ownParameters (parameters : Dict Name Nat) : List (Name × Nat) :=
  firstBy Prod.snd [] parameters.entries

def shardParameters (path : Path) (parameters : Dict Name Nat) : Dict Name Slot :=
  (ownParameters parameters).foldl (shardParameter path) (parameters.mapValues Slot.whole)

section Wrap

variable {α : Type} [Zero α] (worldSize rank : Nat) (tensors : Nat → Tensor α)

def shardedParameterMetadata (parameters : Dict Name Nat) : Dict Name (List ShardMetadata) :=
  Dict.ofAssignments ((ownParameters parameters).map fun entry =>
    (entry.1, (shardTensor worldSize (fun _ => tensors entry.2) rank).2))

mutual

def wrapLayer (path : Path) : Module → Wrapped
  | .mk parameters children =>
      if parameters.entries.isEmpty then
        .plain (parameters.mapValues Slot.whole) (wrapLayers path [] children)
      else
        .fsdpLayer (shardedParameterMetadata worldSize rank tensors parameters)
          (.plain (shardParameters path parameters)
            (wrapLayers path ((ownParameters parameters).map fun entry => shardName entry.1)
              children))

/-- `_wrap_layers` below a module whose children of the `replaced` names made
way for shards. -/
def wrapLayers (path : Path) (replaced : List Name) : Children → WrappedChildren
  | .nil => .nil
  | .cons name child rest =>
      if name ∈ replaced then wrapLayers path replaced rest
      else .cons name (wrapLayer (path ++ [name]) child) (wrapLayers path replaced rest)

end

/-- The tree inside `SimpleFSDP(model)`; the root itself is never wrapped. -/
def simpleFSDP (root : Module) : Wrapped :=
  .plain (root.parameters.mapValues Slot.whole)
    (wrapLayers worldSize rank tensors [] [] root.children)

end Wrap

section Unwrap

variable {α β : Type} (toFloat32 : α → β) (toOrigDtype : β → α) (worldSize rank : Nat)
  (requiresGrad : Nat → Bool) (values : Nat → Slot → Tensor α)

def unwrapParameter (path : Path) (metadata : Dict Name (List ShardMetadata))
    (entry : Name × Slot) : Option (List (Path × Tensor α)) :=
  if requiresGrad entry.2.parameter then
    if shardPrefix <+: entry.1 then do
      let name := entry.1.drop shardPrefix.length
      let metadataDict ← metadata.get? name
      let fullTensor ← collectivesAllGather toFloat32 toOrigDtype worldSize
        (fun sender => (values sender entry.2).data) metadataDict rank
      some [(path ++ [name], fullTensor)]
    else
      some [(path ++ [entry.1], values rank entry.2)]
  else
    some []

mutual

def unwrapLayer (path : Path) : Wrapped → Option (List (Path × Tensor α))
  | .fsdpLayer metadata module =>
      collect
        (unwrapParameter toFloat32 toOrigDtype worldSize rank requiresGrad values path metadata)
        (firstBy Prod.snd [] module.parameters.entries)
  | .plain _ children => unwrapLayers path children

def unwrapLayers (path : Path) : WrappedChildren → Option (List (Path × Tensor α))
  | .nil => some []
  | .cons name child rest => do
      let here ← unwrapLayer (path ++ [name]) child
      let later ← unwrapLayers path rest
      some (here ++ later)

end

def unwrapModel (model : Wrapped) : Option (Dict Path (Tensor α)) :=
  (unwrapLayers toFloat32 toOrigDtype worldSize rank requiresGrad values [] model.children).map
    Dict.ofAssignments

end Unwrap

section Shards

theorem shardName_injective (left right : Name) (same : shardName left = shardName right) :
    left = right :=
  List.append_cancel_left same

theorem shardName_ne (name : Name) : shardName name ≠ name := by
  intro same
  have count := congrArg List.length same
  rw [shardName, List.length_append] at count
  have marked : 0 < shardPrefix.length := by decide
  omega

theorem isPrefix_shardName (name : Name) : shardPrefix <+: shardName name :=
  List.prefix_append _ _

@[simp] theorem drop_shardName (name : Name) :
    (shardName name).drop shardPrefix.length = name :=
  List.drop_left

theorem eq_shardName_of_marked (name : Name) (marked : shardPrefix <+: name) :
    name = shardName (name.drop shardPrefix.length) := by
  obtain ⟨rest, rfl⟩ := marked
  rw [shardName, List.drop_left]

/-- The parameters whose shard outlives the loop: a later sibling called like the
shard deletes it. -/
def survivors : List (Name × Nat) → List (Name × Nat)
  | [] => []
  | entry :: rest =>
      if shardName entry.1 ∈ rest.map Prod.fst then survivors rest else entry :: survivors rest

theorem survivors_subset (entries : List (Name × Nat)) :
    ∀ entry ∈ survivors entries, entry ∈ entries := by
  induction entries with
  | nil => intro entry member; exact member
  | cons head tail ih =>
      intro entry member
      rw [survivors] at member
      split at member
      · exact List.mem_cons_of_mem _ (ih entry member)
      · rcases List.mem_cons.mp member with rfl | later
        · exact List.mem_cons_self
        · exact List.mem_cons_of_mem _ (ih entry later)

/-- After the loop a module holds the surviving shards and the parameters that
neither the loop visited nor a shard replaced. -/
theorem mem_foldl_shardParameter (path : Path) (entries : List (Name × Nat))
    (distinct : (entries.map Prod.fst).Nodup) (dict : Dict Name Slot) (name : Name) (slot : Slot) :
    (name, slot) ∈ entries.foldl (shardParameter path) dict ↔
      (∃ entry ∈ survivors entries,
        name = shardName entry.1 ∧ slot = .shard (path ++ [entry.1]) entry.2) ∨
      ((∀ entry ∈ entries, name ≠ entry.1 ∧ name ≠ shardName entry.1) ∧ (name, slot) ∈ dict) := by
  induction entries generalizing dict with
  | nil => simp [survivors]
  | cons head tail ih =>
      rw [List.map_cons, List.nodup_cons] at distinct
      rw [List.foldl_cons, ih distinct.2, survivors, shardParameter, Dict.mem_erase, Dict.mem_set]
      constructor
      · intro either
        rcases either with ⟨entry, member, shape⟩ | ⟨fresh, differs, ⟨rfl, rfl⟩ | ⟨apart, present⟩⟩
        · refine Or.inl ⟨entry, ?_, shape⟩
          split
          · exact member
          · exact List.mem_cons_of_mem _ member
        · refine Or.inl ⟨head, ?_, rfl, rfl⟩
          rw [if_neg]
          · exact List.mem_cons_self
          · intro taken
            obtain ⟨other, member, same⟩ := List.mem_map.mp taken
            exact (fresh other member).1 same.symm
        · refine Or.inr ⟨?_, present⟩
          intro entry member
          rcases List.mem_cons.mp member with rfl | later
          · exact ⟨differs, apart⟩
          · exact fresh entry later
      · intro either
        rcases either with ⟨entry, member, shape⟩ | ⟨fresh, present⟩
        · split at member
          · exact Or.inl ⟨entry, member, shape⟩
          · rename_i kept
            rcases List.mem_cons.mp member with rfl | later
            · refine Or.inr ⟨?_, ?_, Or.inl shape⟩
              · intro other tailMember
                rw [shape.1]
                refine ⟨?_, ?_⟩
                · intro same
                  exact kept (List.mem_map.mpr ⟨other, tailMember, same.symm⟩)
                · intro same
                  have again := shardName_injective _ _ same
                  exact distinct.1 (List.mem_map.mpr ⟨other, tailMember, again.symm⟩)
              · rw [shape.1]
                exact shardName_ne _
            · exact Or.inl ⟨entry, later, shape⟩
        · have own := fresh head List.mem_cons_self
          exact Or.inr ⟨fun entry later => fresh entry (List.mem_cons_of_mem _ later), own.1,
            Or.inr ⟨own.2, present⟩⟩

end Shards

end ScalarLM.Training
