import ScalarLM.Training.GatherFree
import ScalarLM.Training.ResumeRestores

/-! The modules of a wrapped model by which layers are open, and how gathering, freeing and
reading carry this on. -/

namespace ScalarLM.Training

open ScalarLM.Computation
open Loop (Transfer)

section Names

variable {α : Type} (path : Path) (parameters : Dict Name Nat)

theorem mem_shardAttributes (name : Name) (value : Attribute α) :
    (shardAttributes path parameters).get? name = some value ↔
      ∃ parameter, (name, parameter) ∈ ownParameters parameters ∧
        value = .memory (.shard (path ++ [name]) parameter) := by
  rw [Dict.get?_eq_some_iff, shardAttributes, Dict.mem_ofAssignments, List.mem_map]
  · constructor
    · intro given
      rcases given with ⟨⟨first, parameter⟩, member, equal⟩
      obtain ⟨rfl, rfl⟩ := Prod.mk.inj equal
      exact ⟨parameter, member, rfl⟩
    · intro given
      rcases given with ⟨parameter, member, rfl⟩
      exact ⟨_, member, rfl⟩
  · intro key left right hl hr
    obtain ⟨⟨first, one⟩, memberFirst, equalFirst⟩ := List.mem_map.mp hl
    obtain ⟨⟨second, two⟩, memberSecond, equalSecond⟩ := List.mem_map.mp hr
    obtain ⟨rfl, rfl⟩ := Prod.mk.inj equalFirst
    obtain ⟨same, rfl⟩ := Prod.mk.inj equalSecond
    dsimp only at same
    subst same
    have alike := List.inj_on_of_nodup_map (ownParameters_nodup parameters) memberFirst
      memberSecond rfl
    rw [(Prod.mk.inj alike).2]

theorem keptParameters_nodup : ((keptParameters (path, parameters)).map Prod.fst).Nodup :=
  (shardParameters path parameters).nodup.sublist ((firstBy_sublist _ _ _).map Prod.fst)

variable {parameters}

theorem own_mem_keys (entry : Name × Nat) (own : entry ∈ ownParameters parameters) :
    entry.1 ∈ parameters.keys :=
  List.mem_map.mpr ⟨entry, firstBy_subset _ _ _ _ own, rfl⟩

variable (unreserved : ∀ name ∈ parameters.keys, ¬ shardPrefix <+: name)

include unreserved

theorem own_survives (entry : Name × Nat) (own : entry ∈ ownParameters parameters) :
    entry ∈ survivors (ownParameters parameters) := by
  have keys : ∀ other ∈ ownParameters parameters, ¬ shardPrefix <+: other.1 :=
    fun other member => unreserved _ (own_mem_keys other member)
  generalize ownParameters parameters = entries at own keys
  induction entries with
  | nil => cases own
  | cons head tail ih =>
      rw [List.forall_mem_cons] at keys
      have outlives : shardName head.1 ∉ tail.map Prod.fst := by
        intro taken
        obtain ⟨other, member, same⟩ := List.mem_map.mp taken
        exact keys.2 other member (by rw [same]; exact isPrefix_shardName _)
      rw [survivors, if_neg outlives]
      rcases List.mem_cons.mp own with rfl | later
      · exact List.mem_cons_self
      · exact List.mem_cons_of_mem _ (ih later keys.2)

theorem marked_kept_iff (name : Name) (slot : Slot) :
    (shardName name, slot) ∈ keptParameters (path, parameters) ↔
      ∃ parameter, (name, parameter) ∈ ownParameters parameters ∧
        slot = .shard (path ++ [name]) parameter := by
  constructor
  · intro kept
    rcases kept_cases _ _ _ kept with ⟨entry, survived, same, rfl⟩ | ⟨parameter, left, rfl⟩
    · rw [shardName_injective _ _ same]
      exact ⟨entry.2, survivors_subset _ _ survived, rfl⟩
    · have present := List.mem_of_mem_filter left
      exact absurd (isPrefix_shardName name)
        (unreserved _ (List.mem_map.mpr ⟨_, present, rfl⟩))
  · intro given
    rcases given with ⟨parameter, own, rfl⟩
    exact survivor_kept (path, parameters) (name, parameter) (own_survives unreserved _ own)

theorem own_unregistered (entry : Name × Nat) (own : entry ∈ ownParameters parameters) :
    entry.1 ∉ (shardParameters path parameters).keys := by
  intro registered
  obtain ⟨slot, member⟩ := (Dict.mem_keys _ _).mp registered
  rcases (mem_shardParameters _ _ _ _).mp member with ⟨other, _, same, _⟩ | ⟨parameter, left, _⟩
  · exact unreserved _ (own_mem_keys entry own) (by rw [same]; exact isPrefix_shardName _)
  · have apart := of_decide_eq_true (List.mem_filter.mp left).2
    exact (apart entry own).1 rfl

end Names

section Wrapped

variable {α : Type}

theorem wrappedModule_wrapped (root : Module) (path : Path) (parameters : Dict Name Nat)
    (here : root.parametersAt path = some parameters)
    (wrapped : ¬ (path = [] ∨ parameters.entries.isEmpty)) :
    (wrappedModule root path : ModuleState α) =
      ⟨shardParameters path parameters, shardAttributes path parameters⟩ := by
  rw [wrappedModule, here]
  exact if_neg wrapped

theorem wrappedModule_plain (root : Module) (path : Path) (parameters : Dict Name Nat)
    (here : root.parametersAt path = some parameters)
    (plain : path = [] ∨ parameters.entries.isEmpty) :
    (wrappedModule root path : ModuleState α) = ⟨parameters.mapValues .whole, .empty⟩ := by
  rw [wrappedModule, here]
  exact if_pos plain

end Wrapped

section Related

variable {α β V : Type} [Zero α] (toFloat32 : α → β) (toOrigDtype : β → α) (worldSize : Nat)
  (model : Model α) (shards : Nat → Shards worldSize model) (rank : Nat)

def attributeWhile (opened : Bool) : Attribute α → Option (Attribute α)
  | .memory (.shard place parameter) =>
      if opened then
        (gatherShards toFloat32 toOrigDtype worldSize model shards rank place parameter).map .full
      else some (.memory (.shard place parameter))
  | other => some other

def openValue (entry : Name × Slot) : Attribute α :=
  (attributeWhile toFloat32 toOrigDtype worldSize model shards rank true
    (.memory entry.2)).getD (.memory entry.2)

/-- The modules of a rank when the given layers are open. -/
structure Related (state : ProcessState α) (layers : OpenLayers) : Prop where
  saves : state.saves = layers.saves
  parameters : ∀ path, (state.modules path).parameters =
    (wrappedModule model.root path : ModuleState α).parameters
  attributes : ∀ path name, (state.modules path).attributes.get? name =
    ((wrappedModule model.root path).attributes.get? name).bind
      (attributeWhile toFloat32 toOrigDtype worldSize model shards rank (layers.opened path))

theorem gatherShards_isSome (ranks : 1 ≤ worldSize) (bound : rank < worldSize) (place : Path)
    (parameter : Nat) :
    (gatherShards toFloat32 toOrigDtype worldSize model shards rank place parameter).isSome :=
  allGather_shaped toFloat32 toOrigDtype worldSize model ranks rank bound
    (fun sender => ⟨(shards sender).values, fun _ => none, (), 0, 0, (shards sender).shaped⟩)
    place parameter

theorem openValue_eq (ranks : 1 ≤ worldSize) (bound : rank < worldSize) (name : Name)
    (place : Path) (parameter : Nat) :
    some (openValue toFloat32 toOrigDtype worldSize model shards rank
        (name, .shard place parameter)) =
      attributeWhile toFloat32 toOrigDtype worldSize model shards rank true
        (.memory (.shard place parameter)) := by
  obtain ⟨full, gathered⟩ := Option.isSome_iff_exists.mp (gatherShards_isSome toFloat32
    toOrigDtype worldSize model shards rank ranks bound place parameter)
  rw [openValue, attributeWhile, if_pos rfl, gathered]
  rfl

section Iterations

variable {path : Path} {parameters : Dict Name Nat}
  (unreserved : ∀ name ∈ parameters.keys, ¬ shardPrefix <+: name)

include unreserved

theorem gatherParameter_assigns (ranks : 1 ≤ worldSize) (bound : rank < worldSize)
    (entry : Name × Slot) (kept : entry ∈ keptParameters (path, parameters)) :
    Assigns path (shardParameters path parameters)
      (fun entry => [.gather (path ++ [entry.1.drop shardPrefix.length])])
      (openValue toFloat32 toOrigDtype worldSize model shards rank)
      (gatherParameter toFloat32 toOrigDtype worldSize (fun sender => (shards sender).values)
        rank path (shardedParameterMetadata worldSize rank model.tensors parameters)) entry where
  marked := by
    intro marked state registered
    have name := eq_shardName_of_marked entry.1 marked
    generalize entry.1.drop shardPrefix.length = short at name
    rcases entry with ⟨full, slot⟩
    dsimp only at name
    subst name
    obtain ⟨parameter, own, rfl⟩ := (marked_kept_iff path unreserved short slot).mp kept
    obtain ⟨full, gathered⟩ := Option.isSome_iff_exists.mp (gatherShards_isSome toFloat32
      toOrigDtype worldSize model shards rank ranks bound (path ++ [short]) parameter)
    have metadata := (mem_shardedParameterMetadata worldSize rank model.tensors parameters
      short _).mpr ⟨parameter, own, rfl⟩
    have free : short ∉ (state.modules path).parameters.keys := by
      rw [registered]
      exact own_unregistered path unreserved _ own
    obtain ⟨after, ran, assigned⟩ := onModule_setAttr state path short (.full full) free
    refine ⟨after, ?_, ?_⟩
    · rw [gatherShards] at gathered
      simp only [gatherParameter, if_pos marked, drop_shardName, metadata, gathered]
      rw [andThen_ok rfl]
      simp only [issues, ran]
      rfl
    · rw [openValue, attributeWhile, if_pos rfl, gathered]
      exact assigned
  unmarked := by
    intro unmarked state
    rw [gatherParameter, if_neg unmarked]
    rfl

omit [Zero α] in
theorem freeParameter_assigns (entry : Name × Slot)
    (kept : entry ∈ keptParameters (path, parameters)) :
    Assigns path (shardParameters path parameters) (fun _ => [])
      (fun entry => Attribute.memory entry.2) (freeParameter (α := α) path) entry where
  marked := by
    intro marked state registered
    have name := eq_shardName_of_marked entry.1 marked
    obtain ⟨parameter, own, _⟩ := (marked_kept_iff path unreserved _ entry.2).mp
      (by rw [← name]; exact kept)
    rw [freeParameter, if_pos marked]
    refine onModule_free state path _ entry.2 ?_
    rw [registered]
    exact own_unregistered path unreserved _ own
  unmarked := by
    intro unmarked state
    rw [freeParameter, if_neg unmarked]
    rfl

end Iterations

section Layer

variable {path : Path} {parameters : Dict Name Nat}
  (here : model.root.parametersAt path = some parameters)
  (wrapped : ¬ (path = [] ∨ parameters.entries.isEmpty))
  (unreserved : ∀ name ∈ parameters.keys, ¬ shardPrefix <+: name)
  {state : ProcessState α} {layers : OpenLayers}
  (related : Related toFloat32 toOrigDtype worldSize model shards rank state layers)

include here wrapped related

theorem related_parameters : (state.modules path).parameters = shardParameters path parameters := by
  rw [related.parameters, wrappedModule_wrapped model.root path parameters here wrapped]

theorem related_namedParameters :
    state.namedParameters path = keptParameters (path, parameters) := by
  rw [ProcessState.namedParameters,
    related_parameters toFloat32 toOrigDtype worldSize model shards rank here wrapped related]
  rfl

theorem related_attributes (name : Name) :
    (state.modules path).attributes.get? name =
      ((shardAttributes path parameters).get? name).bind
        (attributeWhile toFloat32 toOrigDtype worldSize model shards rank
          (layers.opened path)) := by
  rw [related.attributes, wrappedModule_wrapped model.root path parameters here wrapped]

include unreserved

theorem related_assignedAll (opened : Bool) (value : Name × Slot → Attribute α)
    (values : ∀ name parameter, (name, parameter) ∈ ownParameters parameters →
      some (value (shardName name, .shard (path ++ [name]) parameter)) =
        attributeWhile toFloat32 toOrigDtype worldSize model shards rank opened
          (.memory (.shard (path ++ [name]) parameter)))
    {after : ProcessState α}
    (assigned : AssignedAll path value (keptParameters (path, parameters)) state after) :
    Related toFloat32 toOrigDtype worldSize model shards rank after
      (layers.mark path opened) where
  saves := assigned.saves.trans related.saves
  parameters := by
    intro other
    by_cases same : other = path
    · rw [same, assigned.parameters, related.parameters]
    · rw [assigned.others other same, related.parameters]
  attributes := by
    intro other name
    by_cases same : other = path
    · rw [same, OpenLayers.mark, wrappedModule_wrapped model.root path parameters here wrapped]
      dsimp only
      rw [if_pos rfl]
      cases held : (shardAttributes path parameters : Dict Name (Attribute α)).get? name with
      | none =>
          rw [Option.bind_none, assigned.untouched, related_attributes toFloat32 toOrigDtype
            worldSize model shards rank here wrapped related, held, Option.bind_none]
          intro slot kept
          obtain ⟨parameter, own, _⟩ := (marked_kept_iff path unreserved name slot).mp kept
          have present := (mem_shardAttributes (α := α) path parameters name _).mpr
            ⟨parameter, own, rfl⟩
          rw [held] at present
          cases present
      | some attr =>
          obtain ⟨parameter, own, rfl⟩ := (mem_shardAttributes path parameters name _).mp held
          rw [Option.bind_some, ← values name parameter own]
          exact assigned.assigned name _ ((marked_kept_iff path unreserved name _).mpr
            ⟨parameter, own, rfl⟩)
    · rw [assigned.others other same, related.attributes, OpenLayers.mark]
      dsimp only
      rw [if_neg same]

theorem gatherAllParameters_opens (ranks : 1 ≤ worldSize) (bound : rank < worldSize) :
    ∃ after, gatherAllParameters toFloat32 toOrigDtype worldSize
        (fun sender => (shards sender).values) rank path
        (shardedParameterMetadata worldSize rank model.tensors parameters) state =
          ⟨layerTransfers path parameters, after, .ok ()⟩ ∧
      Related toFloat32 toOrigDtype worldSize model shards rank after
        (layers.mark path true) := by
  obtain ⟨after, looped, assigned⟩ := forEach_assigns path (shardParameters path parameters)
    (fun entry => [.gather (path ++ [entry.1.drop shardPrefix.length])]) _ _ _
    (keptParameters_nodup path parameters)
    (gatherParameter_assigns toFloat32 toOrigDtype worldSize model shards rank unreserved ranks
      bound) state
    (related_parameters toFloat32 toOrigDtype worldSize model shards rank here wrapped related)
  refine ⟨after, ?_, related_assignedAll toFloat32 toOrigDtype worldSize model shards rank here
    wrapped unreserved related true _ ?_ assigned⟩
  · rw [gatherAllParameters, related_namedParameters toFloat32 toOrigDtype worldSize model shards
      rank here wrapped related, looped, layerTransfers, List.map_eq_flatMap]
  · exact fun name parameter _ =>
      openValue_eq toFloat32 toOrigDtype worldSize model shards rank ranks bound _ _ parameter

theorem freeParams_closes :
    ∃ after, freeParams path state = ⟨[], after, .ok ()⟩ ∧
      Related toFloat32 toOrigDtype worldSize model shards rank after
        (layers.mark path false) := by
  obtain ⟨after, looped, assigned⟩ := forEach_assigns path (shardParameters path parameters)
    (fun _ => []) _ _ _ (keptParameters_nodup path parameters)
    (freeParameter_assigns unreserved) state
    (related_parameters toFloat32 toOrigDtype worldSize model shards rank here wrapped related)
  refine ⟨after, ?_, related_assignedAll toFloat32 toOrigDtype worldSize model shards rank here
    wrapped unreserved related false _ (fun _ _ _ => rfl) assigned⟩
  rw [freeParams, related_namedParameters toFloat32 toOrigDtype worldSize model shards rank here
    wrapped related, looped]
  simp

end Layer

end Related

end ScalarLM.Training
