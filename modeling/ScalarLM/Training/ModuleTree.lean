import ScalarLM.Lib.Collect
import ScalarLM.Lib.Dict
import ScalarLM.Lib.FirstBy
import ScalarLM.Training.Collectives

/-! The module tree of a model, its named parameters and its filtered checkpoint. -/

namespace ScalarLM.Training

abbrev Name := List Char

/-- A dotted name split at its dots; a part has no dot in it. -/
abbrev Path := List Name

instance decidableLayer (layer : Path) (layers : List Path) : Decidable (layer ∈ layers) :=
  List.instDecidableMemOfLawfulBEq layer layers

mutual

/-- A module holds parameter objects under its own names, and child modules. -/
inductive Module where
  | mk (parameters : Dict Name Nat) (children : Children)

inductive Children where
  | nil
  | cons (name : Name) (child : Module) (rest : Children)

end

def Module.parameters : Module → Dict Name Nat
  | .mk parameters _ => parameters

def Module.children : Module → Children
  | .mk _ children => children

def Children.names : Children → List Name
  | .nil => []
  | .cons name _ rest => name :: rest.names

mutual

def Module.WellFormed : Module → Prop
  | .mk parameters children =>
      (∀ name ∈ children.names, name ∉ parameters.keys) ∧ children.WellFormed

def Children.WellFormed : Children → Prop
  | .nil => True
  | .cons name child rest => name ∉ rest.names ∧ child.WellFormed ∧ rest.WellFormed

end

mutual

def Module.members (path : Path) : Module → List (Path × Nat)
  | .mk parameters children =>
      parameters.entries.map (fun entry => (path ++ [entry.1], entry.2)) ++
        children.members path

def Children.members (path : Path) : Children → List (Path × Nat)
  | .nil => []
  | .cons name child rest => child.members (path ++ [name]) ++ rest.members path

end

structure Parameter (α : Type) where
  tensor : Tensor α
  requiresGrad : Bool

/-- A model: its module tree and the parameter objects the tree refers to. Two
names of one object are a shared parameter. -/
structure Model (α : Type) where
  root : Module
  parameters : Nat → Parameter α
  wellFormed : root.WellFormed

namespace Model

variable {α : Type} (model : Model α)

/-- `named_parameters`: every parameter under the first of its names. -/
def namedParameters : List (Path × Nat) := firstBy Prod.snd [] (model.root.members [])

def trainable (parameter : Nat) : Bool := (model.parameters parameter).requiresGrad

def tensors (parameter : Nat) : Tensor α := (model.parameters parameter).tensor

/-- `state_dict`: all names, those of a shared parameter too. -/
def stateDict (values : Nat → Tensor α) : Dict Path (Tensor α) :=
  Dict.ofAssignments ((model.root.members []).map fun entry => (entry.1, values entry.2))

end Model

def filterCheckpoint {α : Type} (model : Model α) (stateDict : Dict Path (Tensor α)) :
    Option (Dict Path (Tensor α)) := do
  let savedParams ← collect (fun entry =>
    if model.trainable entry.2 then do
      let value ← stateDict.get? entry.1
      some [(entry.1, value)]
    else some []) model.namedParameters
  some (Dict.ofAssignments savedParams)

section Names

mutual

theorem Module.members_path (path : Path) : ∀ module : Module,
    ∀ entry ∈ module.members path, ∃ name tail, entry.1 = path ++ name :: tail
  | .mk parameters children => by
      intro entry member
      rw [Module.members, List.mem_append] at member
      rcases member with own | below
      · obtain ⟨source, _, rfl⟩ := List.mem_map.mp own
        exact ⟨source.1, [], rfl⟩
      · obtain ⟨name, _, next, tail, equal⟩ := Children.members_path path children entry below
        exact ⟨name, next :: tail, equal⟩

theorem Children.members_path (path : Path) : ∀ children : Children,
    ∀ entry ∈ children.members path,
      ∃ name ∈ children.names, ∃ next tail, entry.1 = path ++ name :: next :: tail
  | .nil => by
      intro entry member
      cases member
  | .cons name child rest => by
      intro entry member
      rw [Children.members, List.mem_append] at member
      rcases member with here | later
      · obtain ⟨next, tail, equal⟩ := Module.members_path (path ++ [name]) child entry here
        refine ⟨name, List.mem_cons_self, next, tail, ?_⟩
        rw [equal, List.append_assoc]
        rfl
      · obtain ⟨other, present, shape⟩ := Children.members_path path rest entry later
        exact ⟨other, List.mem_cons_of_mem _ present, shape⟩

end

mutual

theorem Module.members_nodup (path : Path) : ∀ module : Module, module.WellFormed →
    ((module.members path).map Prod.fst).Nodup
  | .mk parameters children => by
      intro formed
      rw [Module.members, List.map_append, List.map_map]
      refine List.Nodup.append ?_ (Children.members_nodup path children formed.2) ?_
      · have own : (parameters.entries.map Prod.fst).map (fun name => path ++ [name]) =
            parameters.entries.map (Prod.fst ∘ fun entry => (path ++ [entry.1], entry.2)) := by
          rw [List.map_map]
          rfl
        rw [← own]
        exact parameters.nodup.map fun left right same => by simpa using same
      · -- an own parameter's name is one part longer than the path, a child's at least two
        intro name own below
        obtain ⟨source, _, rfl⟩ := List.mem_map.mp own
        obtain ⟨entry, member, same⟩ := List.mem_map.mp below
        obtain ⟨first, _, next, tail, equal⟩ := Children.members_path path children entry member
        rw [same] at equal
        simp at equal

theorem Children.members_nodup (path : Path) : ∀ children : Children, children.WellFormed →
    ((children.members path).map Prod.fst).Nodup
  | .nil => by
      intro _
      exact List.nodup_nil
  | .cons name child rest => by
      intro formed
      rw [Children.members, List.map_append]
      refine List.Nodup.append (Module.members_nodup (path ++ [name]) child formed.2.1)
        (Children.members_nodup path rest formed.2.2) ?_
      intro full here later
      obtain ⟨left, memberLeft, rfl⟩ := List.mem_map.mp here
      obtain ⟨right, memberRight, same⟩ := List.mem_map.mp later
      obtain ⟨next, tail, equalLeft⟩ := Module.members_path (path ++ [name]) child left memberLeft
      obtain ⟨other, present, next', tail', equalRight⟩ :=
        Children.members_path path rest right memberRight
      have both : path ++ [name] ++ next :: tail = path ++ other :: next' :: tail' := by
        rw [← equalLeft, ← equalRight, same]
      have equal : name = other := by
        rw [List.append_assoc, List.append_cancel_left_eq] at both
        exact (List.cons.inj both).1
      exact formed.1 (equal ▸ present)

end

variable {α : Type} (model : Model α)

theorem Model.members_nodup : ((model.root.members []).map Prod.fst).Nodup :=
  Module.members_nodup [] model.root model.wellFormed

theorem Model.name_unique (name : Path) (left right : Nat)
    (hl : (name, left) ∈ model.root.members []) (hr : (name, right) ∈ model.root.members []) :
    left = right :=
  congrArg Prod.snd (List.inj_on_of_nodup_map model.members_nodup hl hr rfl)

theorem Model.namedParameters_subset (entry : Path × Nat)
    (listed : entry ∈ model.namedParameters) : entry ∈ model.root.members [] :=
  firstBy_subset _ _ _ entry listed

theorem Model.stateDict_get? (values : Nat → Tensor α) (name : Path) (parameter : Nat)
    (member : (name, parameter) ∈ model.root.members []) :
    (model.stateDict values).get? name = some (values parameter) := by
  rw [Dict.get?_eq_some_iff, Model.stateDict, Dict.mem_ofAssignments]
  · exact List.mem_map.mpr ⟨_, member, rfl⟩
  · intro key left right hl hr
    obtain ⟨⟨first, parameterFirst⟩, memberFirst, equalFirst⟩ := List.mem_map.mp hl
    obtain ⟨⟨second, parameterSecond⟩, memberSecond, equalSecond⟩ := List.mem_map.mp hr
    simp only [Prod.mk.injEq] at equalFirst equalSecond
    rw [equalFirst.1] at memberFirst
    rw [equalSecond.1] at memberSecond
    rw [← equalFirst.2, ← equalSecond.2, model.name_unique _ _ _ memberFirst memberSecond]

/-- The filtered checkpoint of a model always exists and holds the trainable
parameters under their first names. -/
theorem filterCheckpoint_eq (values : Nat → Tensor α) :
    ∃ saved, filterCheckpoint model (model.stateDict values) = some saved ∧
      ∀ name tensor, (name, tensor) ∈ saved ↔
        ∃ parameter, (name, parameter) ∈ model.namedParameters ∧
          model.trainable parameter = true ∧ tensor = values parameter := by
  unfold filterCheckpoint
  generalize bodyEq : (fun entry : Path × Nat => if model.trainable entry.2 then do
      let value ← (model.stateDict values).get? entry.1
      some [(entry.1, value)] else some []) = body
  have step : ∀ entry ∈ model.namedParameters, body entry =
      some (if model.trainable entry.2 then [(entry.1, values entry.2)] else []) := by
    intro entry listed
    have found := model.stateDict_get? values entry.1 entry.2
      (model.namedParameters_subset entry listed)
    rw [← bodyEq]
    by_cases active : model.trainable entry.2 <;> simp [active, found]
  have complete : (collect body model.namedParameters).isSome := by
    rw [collect_isSome_iff]
    intro entry listed
    rw [step entry listed]
    rfl
  obtain ⟨savedParams, run⟩ := Option.isSome_iff_exists.mp complete
  have content : ∀ name tensor, (name, tensor) ∈ savedParams ↔
      ∃ parameter, (name, parameter) ∈ model.namedParameters ∧
        model.trainable parameter = true ∧ tensor = values parameter := by
    intro name tensor
    rw [mem_collect body _ _ run]
    constructor
    · intro given
      rcases given with ⟨⟨first, parameter⟩, listed, here, produced, member⟩
      rw [step _ listed, Option.some.injEq] at produced
      subst produced
      by_cases active : model.trainable parameter = true
      · simp only [active, if_true, List.mem_singleton, Prod.mk.injEq] at member
        rw [member.1]
        exact ⟨parameter, listed, active, member.2⟩
      · simp [active] at member
    · intro given
      rcases given with ⟨parameter, listed, active, rfl⟩
      exact ⟨_, listed, _, step _ listed, by simp [active]⟩
  refine ⟨Dict.ofAssignments savedParams, by rw [run]; rfl, ?_⟩
  intro name tensor
  rw [Dict.mem_ofAssignments, content]
  intro key left right hl hr
  obtain ⟨first, listedFirst, _, rfl⟩ := (content key left).mp hl
  obtain ⟨second, listedSecond, _, rfl⟩ := (content key right).mp hr
  rw [model.name_unique key first second (model.namedParameters_subset _ listedFirst)
    (model.namedParameters_subset _ listedSecond)]

end Names

end ScalarLM.Training
