import ScalarLM.Training.Fsdp

/-! What unwrapping a freshly wrapped model gives, against the checkpoint of the
model itself. -/

namespace ScalarLM.Training

section Layers

mutual

def Module.gathered (path : Path) : Module → List (Path × Dict Name Nat)
  | .mk parameters children =>
      if parameters.entries.isEmpty then children.gathered path else [(path, parameters)]

def Children.gathered (path : Path) : Children → List (Path × Dict Name Nat)
  | .nil => []
  | .cons name child rest => child.gathered (path ++ [name]) ++ rest.gathered path

end

mutual

theorem Module.gathered_members (path : Path) : ∀ module : Module,
    ∀ layer ∈ module.gathered path, ∃ before after, module.members path =
      before ++ layer.2.entries.map (fun entry => (layer.1 ++ [entry.1], entry.2)) ++ after
  | .mk parameters children => by
      intro layer member
      rw [Module.gathered] at member
      split at member
      · obtain ⟨before, after, equal⟩ := Children.gathered_members path children layer member
        refine ⟨parameters.entries.map (fun entry => (path ++ [entry.1], entry.2)) ++ before,
          after, ?_⟩
        rw [Module.members, equal]
        simp only [List.append_assoc]
      · obtain rfl := List.mem_singleton.mp member
        exact ⟨[], children.members path, rfl⟩

theorem Children.gathered_members (path : Path) : ∀ children : Children,
    ∀ layer ∈ children.gathered path, ∃ before after, children.members path =
      before ++ layer.2.entries.map (fun entry => (layer.1 ++ [entry.1], entry.2)) ++ after
  | .nil => by
      intro layer member
      cases member
  | .cons name child rest => by
      intro layer member
      rw [Children.gathered, List.mem_append] at member
      rw [Children.members]
      rcases member with here | later
      · obtain ⟨before, after, equal⟩ := Module.gathered_members (path ++ [name]) child layer here
        refine ⟨before, after ++ rest.members path, ?_⟩
        rw [equal]
        simp only [List.append_assoc]
      · obtain ⟨before, after, equal⟩ := Children.gathered_members path rest layer later
        refine ⟨child.members (path ++ [name]) ++ before, after, ?_⟩
        rw [equal]
        simp only [List.append_assoc]

end

/-- The parameters that sharding leaves in place: further names of a parameter
the module already has. -/
def unsharded (parameters : Dict Name Nat) : List (Name × Nat) :=
  parameters.entries.filter fun entry =>
    ∀ first ∈ ownParameters parameters, entry.1 ≠ first.1 ∧ entry.1 ≠ shardName first.1

theorem ownParameters_nodup (parameters : Dict Name Nat) :
    ((ownParameters parameters).map Prod.fst).Nodup :=
  parameters.nodup.sublist ((firstBy_sublist _ _ _).map Prod.fst)

theorem mem_shardParameters (path : Path) (parameters : Dict Name Nat) (name : Name)
    (slot : Slot) :
    (name, slot) ∈ shardParameters path parameters ↔
      (∃ entry ∈ survivors (ownParameters parameters),
        name = shardName entry.1 ∧ slot = .shard (path ++ [entry.1]) entry.2) ∨
      ∃ parameter, (name, parameter) ∈ unsharded parameters ∧ slot = .whole parameter := by
  rw [shardParameters, mem_foldl_shardParameter path _ (ownParameters_nodup parameters),
    Dict.mem_mapValues]
  refine or_congr_right ⟨?_, ?_⟩
  · intro given
    rcases given with ⟨apart, parameter, member, rfl⟩
    exact ⟨parameter, List.mem_filter.mpr ⟨member, decide_eq_true apart⟩, rfl⟩
  · intro given
    rcases given with ⟨parameter, member, rfl⟩
    obtain ⟨present, apart⟩ := List.mem_filter.mp member
    exact ⟨of_decide_eq_true apart, parameter, present, rfl⟩

/-- The parameters a wrapped layer lists when it is unwrapped. -/
def keptParameters (layer : Path × Dict Name Nat) : List (Name × Slot) :=
  firstBy Prod.snd [] (shardParameters layer.1 layer.2).entries

theorem survivor_kept (layer : Path × Dict Name Nat) (entry : Name × Nat)
    (survived : entry ∈ survivors (ownParameters layer.2)) :
    (shardName entry.1, Slot.shard (layer.1 ++ [entry.1]) entry.2) ∈ keptParameters layer := by
  have present := (mem_shardParameters layer.1 layer.2 _ _).mpr
    (Or.inl ⟨entry, survived, rfl, rfl⟩)
  obtain ⟨⟨name, slot⟩, kept, same⟩ := exists_firstBy Prod.snd [] _ _ present List.not_mem_nil
  have held : (name, slot) ∈ shardParameters layer.1 layer.2 := firstBy_subset _ _ _ _ kept
  dsimp only at same
  subst same
  rcases (mem_shardParameters _ _ _ _).mp held with ⟨other, _, rfl, equal⟩ | ⟨_, _, equal⟩
  · have alike : other.1 = entry.1 := by
      injection equal with places _
      simpa using places.symm
    rw [alike] at kept
    exact kept
  · cases equal

theorem kept_cases (layer : Path × Dict Name Nat) (name : Name) (slot : Slot)
    (kept : (name, slot) ∈ keptParameters layer) :
    (∃ entry ∈ survivors (ownParameters layer.2),
        name = shardName entry.1 ∧ slot = .shard (layer.1 ++ [entry.1]) entry.2) ∨
      ∃ parameter, (name, parameter) ∈ unsharded layer.2 ∧ slot = .whole parameter :=
  (mem_shardParameters _ _ _ _).mp (firstBy_subset _ _ _ _ kept)

theorem unsharded_kept (layer : Path × Dict Name Nat) (entry : Name × Nat)
    (left : entry ∈ unsharded layer.2) :
    ∃ name, (name, entry.2) ∈ unsharded layer.2 ∧
      (name, Slot.whole entry.2) ∈ keptParameters layer := by
  have present := (mem_shardParameters layer.1 layer.2 entry.1 (.whole entry.2)).mpr
    (Or.inr ⟨entry.2, left, rfl⟩)
  obtain ⟨⟨name, slot⟩, kept, same⟩ := exists_firstBy Prod.snd [] _ _ present List.not_mem_nil
  dsimp only at same
  subst same
  rcases kept_cases layer _ _ kept with ⟨_, _, _, equal⟩ | ⟨parameter, member, equal⟩
  · cases equal
  · cases equal
    exact ⟨name, member, kept⟩

variable {α : Type} (model : Model α)

theorem gathered_member (layer : Path × Dict Name Nat)
    (member : layer ∈ model.root.children.gathered []) (entry : Name × Nat)
    (present : entry ∈ layer.2.entries) :
    (layer.1 ++ [entry.1], entry.2) ∈ model.root.members [] := by
  obtain ⟨before, after, equal⟩ := Children.gathered_members [] _ layer member
  have below : (layer.1 ++ [entry.1], entry.2) ∈ model.root.children.members [] := by
    rw [equal]
    exact List.mem_append_left _ (List.mem_append_right _ (List.mem_map.mpr ⟨entry, present, rfl⟩))
  cases shape : model.root with
  | mk parameters children =>
      rw [shape] at below
      exact List.mem_append_right _ below

theorem unsharded_mem (parameters : Dict Name Nat) (entry : Name × Nat)
    (left : entry ∈ unsharded parameters) : entry ∈ parameters.entries :=
  (List.mem_filter.mp left).1

/-- A name that sharding leaves in place is not the one the parameter is listed
under. -/
theorem unsharded_unlisted (layer : Path × Dict Name Nat)
    (member : layer ∈ model.root.children.gathered []) (entry : Name × Nat)
    (left : entry ∈ unsharded layer.2) :
    (layer.1 ++ [entry.1], entry.2) ∉ model.namedParameters := by
  obtain ⟨present, apart⟩ := List.mem_filter.mp left
  have second : entry ∉ ownParameters layer.2 :=
    fun first => (of_decide_eq_true apart entry first).1 rfl
  obtain ⟨front, back, split⟩ := List.append_of_mem present
  have earlier : entry.2 ∈ front.map Prod.snd := by
    by_contra fresh
    exact second ((mem_firstBy _ _ _ _).mpr ⟨List.not_mem_nil, front, back, split, fresh⟩)
  obtain ⟨before, after, equal⟩ := Children.gathered_members [] _ layer member
  have distinct : (model.root.members []).Nodup := List.Nodup.of_map _ model.members_nodup
  let rename := fun entry : Name × Nat => (layer.1 ++ [entry.1], entry.2)
  cases shape : model.root with
  | mk parameters children =>
      have whole : model.root.members [] =
          (parameters.entries.map (fun entry => ([] ++ [entry.1], entry.2)) ++ before ++
            front.map rename) ++ rename entry :: (back.map rename ++ after) := by
        rw [shape] at equal ⊢
        rw [Module.members]
        dsimp only [Module.children] at equal
        rw [equal, split]
        simp only [List.map_append, List.map_cons, List.append_assoc, List.cons_append, rename]
      refine not_mem_firstBy Prod.snd _ _ _ _ distinct whole ?_
      rw [List.map_append, List.map_map]
      exact List.mem_append_right _ earlier

end Layers

section Unwrapping

variable {α β : Type} [Zero α] (toFloat32 : α → β) (toOrigDtype : β → α)
  (worldSize rank : Nat) (tensors : Nat → Tensor α) (requiresGrad : Nat → Bool)
  (values : Nat → Slot → Tensor α)

def unwrapGathered (layer : Path × Dict Name Nat) : Option (List (Path × Tensor α)) :=
  collect
    (unwrapParameter toFloat32 toOrigDtype worldSize rank requiresGrad values layer.1
      (shardedParameterMetadata worldSize rank tensors layer.2))
    (keptParameters layer)

mutual

theorem unwrapLayer_wrapLayer (path : Path) : ∀ module : Module,
    unwrapLayer toFloat32 toOrigDtype worldSize rank requiresGrad values path
        (wrapLayer worldSize rank tensors path module) =
      collect (unwrapGathered toFloat32 toOrigDtype worldSize rank tensors requiresGrad values)
        (module.gathered path)
  | .mk parameters children => by
      rw [wrapLayer, Module.gathered]
      split
      · rw [unwrapLayer]
        exact unwrapLayers_wrapLayers path children
      · rw [unwrapLayer, collect_singleton]
        rfl

theorem unwrapLayers_wrapLayers (path : Path) : ∀ children : Children,
    unwrapLayers toFloat32 toOrigDtype worldSize rank requiresGrad values path
        (wrapLayers worldSize rank tensors path [] children) =
      collect (unwrapGathered toFloat32 toOrigDtype worldSize rank tensors requiresGrad values)
        (children.gathered path)
  | .nil => by
      rw [wrapLayers, unwrapLayers, Children.gathered, collect]
  | .cons name child rest => by
      rw [wrapLayers, if_neg List.not_mem_nil, unwrapLayers, Children.gathered, collect_append,
        unwrapLayer_wrapLayer (path ++ [name]) child, unwrapLayers_wrapLayers path rest]
      cases collect _ (child.gathered (path ++ [name])) with
      | none => rfl
      | some here => cases collect _ (rest.gathered path) <;> rfl

end

theorem mem_shardedParameterMetadata (parameters : Dict Name Nat) (name : Name)
    (metadata : List ShardMetadata) :
    (shardedParameterMetadata worldSize rank tensors parameters).get? name = some metadata ↔
      ∃ parameter, (name, parameter) ∈ ownParameters parameters ∧
        metadata = (shardTensor worldSize (fun _ => tensors parameter) rank).2 := by
  rw [Dict.get?_eq_some_iff, shardedParameterMetadata, Dict.mem_ofAssignments, List.mem_map]
  · constructor
    · intro given
      rcases given with ⟨⟨first, parameter⟩, member, equal⟩
      obtain ⟨rfl, rfl⟩ := Prod.mk.inj equal
      exact ⟨parameter, member, rfl⟩
    · intro given
      rcases given with ⟨parameter, member, rfl⟩
      exact ⟨_, member, rfl⟩
  · intro key left right hl hr
    obtain ⟨⟨first, parameterFirst⟩, memberFirst, equalFirst⟩ := List.mem_map.mp hl
    obtain ⟨⟨second, parameterSecond⟩, memberSecond, equalSecond⟩ := List.mem_map.mp hr
    obtain ⟨rfl, rfl⟩ := Prod.mk.inj equalFirst
    obtain ⟨same, rfl⟩ := Prod.mk.inj equalSecond
    dsimp only at same
    subst same
    have alike := List.inj_on_of_nodup_map (ownParameters_nodup parameters) memberFirst
      memberSecond rfl
    rw [(Prod.mk.inj alike).2]

omit [Zero α] in
theorem unwrapParameter_frozen (path : Path) (metadata : Dict Name (List ShardMetadata))
    (entry : Name × Slot) (frozen : requiresGrad entry.2.parameter = false) :
    unwrapParameter toFloat32 toOrigDtype worldSize rank requiresGrad values path metadata entry =
      some [] := by
  rw [unwrapParameter, frozen]
  rfl

/-- A parameter left in place comes out as it is, unless its name sends the loop
looking for metadata that it does not have. -/
theorem unwrapParameter_unsharded (layer : Path × Dict Name Nat) (entry : Name × Nat)
    (left : entry ∈ unsharded layer.2) (active : requiresGrad entry.2 = true) :
    unwrapParameter toFloat32 toOrigDtype worldSize rank requiresGrad values layer.1
        (shardedParameterMetadata worldSize rank tensors layer.2) (entry.1, .whole entry.2) =
      if shardPrefix <+: entry.1 then none
      else some [(layer.1 ++ [entry.1], values rank (.whole entry.2))] := by
  rw [unwrapParameter, Slot.parameter, active, if_pos rfl]
  split
  · rename_i marked
    have missing : (shardedParameterMetadata worldSize rank tensors layer.2).get?
        (entry.1.drop shardPrefix.length) = none := by
      rw [Option.eq_none_iff_forall_ne_some]
      intro metadata found
      obtain ⟨parameter, first, _⟩ := (mem_shardedParameterMetadata _ _ _ _ _ _).mp found
      have apart := of_decide_eq_true (List.mem_filter.mp left).2 _ first
      exact apart.2 (eq_shardName_of_marked entry.1 marked)
    simp only [missing]
    rfl
  · rfl

theorem unwrapParameter_survivor (layer : Path × Dict Name Nat) (entry : Name × Nat)
    (survived : entry ∈ survivors (ownParameters layer.2))
    (active : requiresGrad entry.2 = true) :
    unwrapParameter toFloat32 toOrigDtype worldSize rank requiresGrad values layer.1
        (shardedParameterMetadata worldSize rank tensors layer.2)
        (shardName entry.1, .shard (layer.1 ++ [entry.1]) entry.2) =
      (collectivesAllGather toFloat32 toOrigDtype worldSize
        (fun sender => (values sender (.shard (layer.1 ++ [entry.1]) entry.2)).data)
        (shardTensor worldSize (fun _ => tensors entry.2) rank).2 rank).map
          fun fullTensor => [(layer.1 ++ [entry.1], fullTensor)] := by
  have found := (mem_shardedParameterMetadata worldSize rank tensors layer.2 entry.1 _).mpr
    ⟨entry.2, survivors_subset _ _ survived, rfl⟩
  rw [unwrapParameter, Slot.parameter, active, if_pos rfl, if_pos (isPrefix_shardName entry.1)]
  simp only [drop_shardName, found, Option.bind_eq_bind, Option.bind_some]
  cases collectivesAllGather toFloat32 toOrigDtype worldSize _ _ rank <;> rfl

end Unwrapping

end ScalarLM.Training
