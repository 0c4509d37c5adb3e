import ScalarLM.Training.UnwrapModel

/-! When the checkpoint of a wrapped model is the checkpoint of the model. -/

namespace ScalarLM.Training

variable {α β : Type} [Zero α] (toFloat32 : α → β) (toOrigDtype : β → α)
  (worldSize : Nat) (model : Model α)

def initialValues (rank : Nat) : Slot → Tensor α
  | .whole parameter => model.tensors parameter
  | .shard _ parameter => .vector (shardTensor worldSize (fun _ => model.tensors parameter) rank).1

def unwrappedCheckpoint (rank : Nat) : Option (Dict Path (Tensor α)) :=
  unwrapModel toFloat32 toOrigDtype worldSize rank model.trainable
    (initialValues worldSize model) (simpleFSDP worldSize rank model.tensors model.root)

/-- Both checkpoints exist and have the same keys with the same tensors. -/
def CheckpointsAgree (rank : Nat) : Prop :=
  ∃ unwrapped saved,
    unwrappedCheckpoint toFloat32 toOrigDtype worldSize model rank = some unwrapped ∧
      filterCheckpoint model (model.stateDict model.tensors) = some saved ∧
      ∀ name tensor, (name, tensor) ∈ unwrapped ↔ (name, tensor) ∈ saved

def gatheredParameters : List (Path × Nat) :=
  (model.root.children.gathered []).flatMap fun layer =>
    (survivors (ownParameters layer.2)).map fun entry => (layer.1 ++ [entry.1], entry.2)

/-- The models whose wrapped checkpoint is complete: nothing trainable sits on
the root, below a parameter-holding module, in two places or behind a sibling
called like its shard, and the trainable entries survive float32. -/
structure Unwrappable : Prop where
  listed : ∀ name parameter, model.trainable parameter = true →
    ((name, parameter) ∈ model.namedParameters ↔ (name, parameter) ∈ gatheredParameters model)
  unshared : ∀ layer ∈ model.root.children.gathered [], ∀ entry ∈ unsharded layer.2,
    model.trainable entry.2 = false
  representable : ∀ entry ∈ model.namedParameters, model.trainable entry.2 = true →
    ∀ number ∈ (model.tensors entry.2).data, toOrigDtype (toFloat32 number) = number

omit [Zero α] in
theorem mem_gatheredParameters (name : Path) (parameter : Nat) :
    (name, parameter) ∈ gatheredParameters model ↔
      ∃ layer ∈ model.root.children.gathered [], ∃ entry ∈ survivors (ownParameters layer.2),
        name = layer.1 ++ [entry.1] ∧ parameter = entry.2 := by
  simp only [gatheredParameters, List.mem_flatMap, List.mem_map, Prod.mk.injEq]
  constructor
  · intro given
    rcases given with ⟨layer, member, entry, survived, rfl, rfl⟩
    exact ⟨layer, member, entry, survived, rfl, rfl⟩
  · intro given
    rcases given with ⟨layer, member, entry, survived, rfl, rfl⟩
    exact ⟨layer, member, entry, survived, rfl, rfl⟩

omit [Zero α] in
theorem gatheredParameters_member (name : Path) (parameter : Nat)
    (member : (name, parameter) ∈ gatheredParameters model) :
    (name, parameter) ∈ model.root.members [] := by
  obtain ⟨layer, held, entry, survived, rfl, rfl⟩ := (mem_gatheredParameters model _ _).mp member
  exact gathered_member model layer held entry
    (firstBy_subset _ _ _ _ (survivors_subset _ _ survived))

section Before

variable (ranks : 1 ≤ worldSize) (rank : Nat) (bound : rank < worldSize)

def unwrapFresh (layer : Path × Dict Name Nat) (entry : Name × Slot) :
    Option (List (Path × Tensor α)) :=
  unwrapParameter toFloat32 toOrigDtype worldSize rank model.trainable
    (initialValues worldSize model) layer.1
    (shardedParameterMetadata worldSize rank model.tensors layer.2) entry

def freshAssignments : Option (List (Path × Tensor α)) :=
  collect
    (fun layer => collect (unwrapFresh toFloat32 toOrigDtype worldSize model rank layer)
      (keptParameters layer))
    (model.root.children.gathered [])

theorem unwrappedCheckpoint_eq :
    unwrappedCheckpoint toFloat32 toOrigDtype worldSize model rank =
      (freshAssignments toFloat32 toOrigDtype worldSize model rank).map Dict.ofAssignments := by
  rw [unwrappedCheckpoint, unwrapModel, simpleFSDP, Wrapped.children, unwrapLayers_wrapLayers]
  rfl

include ranks bound in
theorem unwrapFresh_survivor (layer : Path × Dict Name Nat) (entry : Name × Nat)
    (survived : entry ∈ survivors (ownParameters layer.2))
    (active : model.trainable entry.2 = true) :
    unwrapFresh toFloat32 toOrigDtype worldSize model rank layer
        (shardName entry.1, .shard (layer.1 ++ [entry.1]) entry.2) =
      some [(layer.1 ++ [entry.1], (model.tensors entry.2).map (toOrigDtype ∘ toFloat32))] := by
  have gathered := allGather_shardTensor toFloat32 toOrigDtype worldSize ranks
    (model.tensors entry.2) rank bound
  rw [unwrapFresh, unwrapParameter_survivor _ _ _ _ _ _ _ layer entry survived active]
  simp only [initialValues, Tensor.vector, gathered, Option.map_some]

theorem mem_freshAssignments (assignments : List (Path × Tensor α))
    (run : freshAssignments toFloat32 toOrigDtype worldSize model rank = some assignments)
    (assignment : Path × Tensor α) :
    assignment ∈ assignments ↔
      ∃ layer ∈ model.root.children.gathered [], ∃ entry ∈ keptParameters layer, ∃ here,
        unwrapFresh toFloat32 toOrigDtype worldSize model rank layer entry = some here ∧
          assignment ∈ here := by
  rw [mem_collect _ _ _ run]
  constructor
  · intro given
    rcases given with ⟨layer, member, out, produced, within⟩
    exact ⟨layer, member, (mem_collect _ _ _ produced _).mp within⟩
  · intro given
    rcases given with ⟨layer, member, within⟩
    have done : (collect (unwrapFresh toFloat32 toOrigDtype worldSize model rank layer)
        (keptParameters layer)).isSome :=
      (collect_isSome_iff _ _).mp (by rw [← freshAssignments, run]; rfl) layer member
    obtain ⟨out, produced⟩ := Option.isSome_iff_exists.mp done
    exact ⟨layer, member, out, produced, (mem_collect _ _ _ produced _).mpr within⟩

/-- When no trainable parameter is left in place, the loops end and assign the
gathered trainable parameters. -/
theorem freshAssignments_complete (ranks : 1 ≤ worldSize) (bound : rank < worldSize)
    (unshared : ∀ layer ∈ model.root.children.gathered [], ∀ entry ∈ unsharded layer.2,
      model.trainable entry.2 = false) :
    ∃ assignments,
      freshAssignments toFloat32 toOrigDtype worldSize model rank = some assignments ∧
        ∀ name tensor, (name, tensor) ∈ assignments ↔
          ∃ parameter, (name, parameter) ∈ gatheredParameters model ∧
            model.trainable parameter = true ∧
            tensor = (model.tensors parameter).map (toOrigDtype ∘ toFloat32) := by
  have step : ∀ layer ∈ model.root.children.gathered [], ∀ entry ∈ keptParameters layer,
      unwrapFresh toFloat32 toOrigDtype worldSize model rank layer entry =
        some (if model.trainable entry.2.parameter then
          [(layer.1 ++ [entry.1.drop shardPrefix.length],
            (model.tensors entry.2.parameter).map (toOrigDtype ∘ toFloat32))] else []) := by
    intro layer member given kept
    rcases given with ⟨name, slot⟩
    by_cases active : model.trainable slot.parameter = true
    · rcases kept_cases layer name slot kept with
        ⟨entry, survived, rfl, rfl⟩ | ⟨parameter, left, rfl⟩
      · rw [unwrapFresh_survivor toFloat32 toOrigDtype worldSize model ranks rank bound layer entry
          survived active]
        simp only [Slot.parameter] at active
        simp only [Slot.parameter, active, if_true, drop_shardName]
      · have frozen := unshared layer member _ left
        rw [Slot.parameter] at active
        rw [active] at frozen
        cases frozen
    · rw [Bool.not_eq_true] at active
      rw [unwrapFresh, unwrapParameter_frozen _ _ _ _ _ _ _ _ _ active]
      simp only [active]
      rfl
  have complete : (freshAssignments toFloat32 toOrigDtype worldSize model rank).isSome := by
    rw [freshAssignments, collect_isSome_iff]
    intro layer member
    rw [collect_isSome_iff]
    intro entry kept
    rw [step layer member entry kept]
    rfl
  obtain ⟨assignments, run⟩ := Option.isSome_iff_exists.mp complete
  refine ⟨assignments, run, ?_⟩
  intro name tensor
  rw [mem_freshAssignments toFloat32 toOrigDtype worldSize model rank assignments run]
  constructor
  · intro given
    rcases given with ⟨layer, member, ⟨own, slot⟩, kept, here, produced, within⟩
    rw [step layer member _ kept, Option.some.injEq] at produced
    subst produced
    by_cases active : model.trainable slot.parameter = true
    · simp only [active, if_true, List.mem_singleton, Prod.mk.injEq] at within
      obtain ⟨rfl, rfl⟩ := within
      rcases kept_cases layer own slot kept with
        ⟨entry, survived, rfl, rfl⟩ | ⟨parameter, left, rfl⟩
      · refine ⟨entry.2, (mem_gatheredParameters model _ _).mpr ?_, active, rfl⟩
        exact ⟨layer, member, entry, survived, by rw [drop_shardName], rfl⟩
      · have frozen := unshared layer member _ left
        rw [Slot.parameter] at active
        rw [active] at frozen
        cases frozen
    · simp [active] at within
  · intro given
    rcases given with ⟨parameter, gathered, active, rfl⟩
    obtain ⟨layer, member, entry, survived, rfl, rfl⟩ :=
      (mem_gatheredParameters model _ _).mp gathered
    exact ⟨layer, member, _, survivor_kept layer entry survived, _,
      unwrapFresh_survivor toFloat32 toOrigDtype worldSize model ranks rank bound layer entry
        survived active, List.mem_cons_self⟩

end Before

theorem unshared_of_listed (rank : Nat) (assignments : List (Path × Tensor α))
    (run : freshAssignments toFloat32 toOrigDtype worldSize model rank = some assignments)
    (listed : ∀ name tensor, (name, tensor) ∈ assignments →
      ∃ parameter, (name, parameter) ∈ model.namedParameters) :
    ∀ layer ∈ model.root.children.gathered [], ∀ entry ∈ unsharded layer.2,
      model.trainable entry.2 = false := by
  intro layer member entry left
  by_contra active
  rw [Bool.not_eq_false] at active
  obtain ⟨name, again, kept⟩ := unsharded_kept layer entry left
  have done : (unwrapFresh toFloat32 toOrigDtype worldSize model rank layer
      (name, .whole entry.2)).isSome := by
    have outer := (collect_isSome_iff _ _).mp
      (show (freshAssignments toFloat32 toOrigDtype worldSize model rank).isSome by rw [run]; rfl)
    exact (collect_isSome_iff _ _).mp (outer layer member) _ kept
  obtain ⟨here, produced⟩ := Option.isSome_iff_exists.mp done
  have shape := unwrapParameter_unsharded toFloat32 toOrigDtype worldSize rank model.tensors
    model.trainable (initialValues worldSize model) layer (name, entry.2) again active
  rw [← unwrapFresh, produced] at shape
  split at shape
  · cases shape
  · rw [Option.some.injEq] at shape
    have assigned := (mem_freshAssignments toFloat32 toOrigDtype worldSize model rank assignments
      run (layer.1 ++ [name], model.tensors entry.2)).mpr
        ⟨layer, member, _, kept, here, produced, by rw [shape]; exact List.mem_cons_self⟩
    obtain ⟨parameter, found⟩ := listed _ _ assigned
    have same := model.name_unique _ _ _ (model.namedParameters_subset _ found)
      (gathered_member model layer member _ (unsharded_mem _ _ again))
    rw [same] at found
    exact unsharded_unlisted model layer member _ again found

/-- The two checkpoints agree on exactly the models described by `Unwrappable`. -/
theorem checkpoints_agree_iff (ranks : 1 < worldSize) (rank : Nat) (bound : rank < worldSize) :
    CheckpointsAgree toFloat32 toOrigDtype worldSize model rank ↔
      Unwrappable toFloat32 toOrigDtype model := by
  obtain ⟨saved, savedRun, savedContent⟩ := filterCheckpoint_eq model model.tensors
  constructor
  · intro given
    rcases given with ⟨unwrapped, saved', unwrappedRun, savedRun', same⟩
    rw [savedRun, Option.some.injEq] at savedRun'
    subst savedRun'
    rw [unwrappedCheckpoint_eq] at unwrappedRun
    obtain ⟨assignments, run, rfl⟩ := Option.map_eq_some_iff.mp unwrappedRun
    have listed : ∀ name tensor, (name, tensor) ∈ assignments →
        ∃ parameter, (name, parameter) ∈ model.namedParameters ∧
          model.trainable parameter = true := by
      intro name tensor assigned
      obtain ⟨content, found⟩ := (Dict.mem_keys _ _).mp
        ((Dict.mem_keys_ofAssignments assignments name).mpr (List.mem_map.mpr ⟨_, assigned, rfl⟩))
      obtain ⟨parameter, present, active, _⟩ := (savedContent _ _).mp ((same _ _).mp found)
      exact ⟨parameter, present, active⟩
    have unshared := unshared_of_listed toFloat32 toOrigDtype worldSize model rank assignments run
      (fun name tensor assigned => (listed name tensor assigned).imp fun _ => And.left)
    obtain ⟨_, run', content⟩ := freshAssignments_complete toFloat32 toOrigDtype worldSize model
      rank (by omega) bound unshared
    rw [run, Option.some.injEq] at run'
    subst run'
    have returned : ∀ name parameter, model.trainable parameter = true →
        (name, parameter) ∈ model.namedParameters → (name, parameter) ∈ gatheredParameters model ∧
          model.tensors parameter =
            (model.tensors parameter).map (toOrigDtype ∘ toFloat32) := by
      intro name parameter active present
      have found := (same _ _).mpr ((savedContent _ _).mpr ⟨parameter, present, active, rfl⟩)
      obtain ⟨other, gathered, _, equal⟩ :=
        (content _ _).mp (Dict.assigned_of_mem _ _ _ found)
      have alike := model.name_unique _ _ _ (gatheredParameters_member model _ _ gathered)
        (model.namedParameters_subset _ present)
      rw [alike] at gathered equal
      exact ⟨gathered, equal⟩
    refine ⟨?_, unshared, ?_⟩
    · intro name parameter active
      refine ⟨fun present => (returned name parameter active present).1, ?_⟩
      intro gathered
      obtain ⟨other, present, _⟩ := listed _ _
        ((content _ _).mpr ⟨parameter, gathered, active, rfl⟩)
      have alike := model.name_unique _ _ _ (model.namedParameters_subset _ present)
        (gatheredParameters_member model _ _ gathered)
      rw [alike] at present
      exact present
    · intro entry present active
      exact (Tensor.map_eq_self_iff _ _).mp (returned entry.1 entry.2 active present).2.symm
  · intro unwrappable
    obtain ⟨assignments, run, content⟩ := freshAssignments_complete toFloat32 toOrigDtype
      worldSize model rank (by omega) bound unwrappable.unshared
    refine ⟨Dict.ofAssignments assignments, saved, ?_, savedRun, ?_⟩
    · rw [unwrappedCheckpoint_eq, run]
      rfl
    · intro name tensor
      rw [Dict.mem_ofAssignments, content, savedContent]
      · refine exists_congr fun parameter => ?_
        constructor
        · intro given
          rcases given with ⟨gathered, active, rfl⟩
          have present := (unwrappable.listed name parameter active).mpr gathered
          refine ⟨present, active, ?_⟩
          exact (Tensor.map_eq_self_iff _ _).mpr (unwrappable.representable _ present active)
        · intro given
          rcases given with ⟨present, active, rfl⟩
          refine ⟨(unwrappable.listed name parameter active).mp present, active, ?_⟩
          exact ((Tensor.map_eq_self_iff _ _).mpr
            (unwrappable.representable _ present active)).symm
      · intro key left right hl hr
        obtain ⟨first, gatheredFirst, _, rfl⟩ := (content _ _).mp hl
        obtain ⟨second, gatheredSecond, _, rfl⟩ := (content _ _).mp hr
        rw [model.name_unique _ _ _ (gatheredParameters_member model _ _ gatheredFirst)
          (gatheredParameters_member model _ _ gatheredSecond)]

def nestedModel : Model Int where
  root := .mk .empty (.cons ['a']
    (.mk ⟨[(['p'], 0)], by decide⟩ (.cons ['b'] (.mk ⟨[(['q'], 1)], by decide⟩ .nil) .nil)) .nil)
  parameters := fun _ => ⟨⟨[1], [7], rfl⟩, true⟩
  wellFormed := by
    simp [Module.WellFormed, Children.WellFormed, Children.names, Dict.keys, Dict.empty]

/-- The parameter `a.b.q` is missing from the unwrapped model. -/
theorem checkpoints_disagree_nested :
    ¬ ∀ (worldSize : Nat) (model : Model Int) (rank : Nat), 1 < worldSize → rank < worldSize →
      CheckpointsAgree id id worldSize model rank := by
  intro claimed
  obtain ⟨unwrapped, saved, unwrappedRun, savedRun, same⟩ :=
    claimed 2 nestedModel 0 (by decide) (by decide)
  have unwrappedKeys : (unwrappedCheckpoint id id 2 nestedModel 0).map Dict.keys =
      some [[['a'], ['p']]] := by decide
  have savedKeys : (filterCheckpoint nestedModel (nestedModel.stateDict nestedModel.tensors)).map
      Dict.keys = some [[['a'], ['p']], [['a'], ['b'], ['q']]] := by decide
  rw [unwrappedRun, Option.map_some, Option.some.injEq] at unwrappedKeys
  rw [savedRun, Option.map_some, Option.some.injEq] at savedKeys
  have present : [['a'], ['b'], ['q']] ∈ saved.keys := by rw [savedKeys]; decide
  obtain ⟨tensor, member⟩ := (Dict.mem_keys _ _).mp present
  have found : [['a'], ['b'], ['q']] ∈ unwrapped.keys :=
    (Dict.mem_keys _ _).mpr ⟨tensor, (same _ _).mpr member⟩
  rw [unwrappedKeys] at found
  exact absurd found (by decide)

def flatModel : Model Int where
  root := .mk .empty (.cons ['a'] (.mk ⟨[(['p'], 0), (['q'], 1)], by decide⟩ .nil)
    (.cons ['b'] (.mk .empty (.cons ['c'] (.mk ⟨[(['p'], 2)], by decide⟩ .nil) .nil)) .nil))
  parameters := fun parameter => ⟨⟨[3], [1, 2, parameter], rfl⟩, parameter != 1⟩
  wellFormed := by
    simp [Module.WellFormed, Children.WellFormed, Children.names, Dict.keys, Dict.empty]

theorem checkpoints_agree_flat : CheckpointsAgree id id 2 flatModel 1 :=
  (checkpoints_agree_iff id id 2 flatModel (by decide) 1 (by decide)).mpr {
    listed := by
      have same : flatModel.namedParameters = gatheredParameters flatModel := by decide
      intro name parameter _
      rw [same]
    unshared := by decide
    representable := fun _ _ _ _ _ => rfl }

end ScalarLM.Training
