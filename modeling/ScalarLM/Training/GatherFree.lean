import ScalarLM.Training.OpenLayers

/-! What gathering and freeing the parameters of a layer leave in its module. -/

namespace ScalarLM.Training

open ScalarLM.Computation
open Loop (Transfer)

section Assigning

variable {α : Type}

structure Assigned (path : Path) (name : Name) (value : Attribute α)
    (state after : ProcessState α) : Prop where
  saves : after.saves = state.saves
  others : ∀ other, other ≠ path → after.modules other = state.modules other
  parameters : (after.modules path).parameters = (state.modules path).parameters
  attributes : ∀ other, (after.modules path).attributes.get? other =
    if other = name then some value else (state.modules path).attributes.get? other

theorem withModule_self (state : ProcessState α) (path : Path) (module : ModuleState α) :
    (state.withModule path module).modules path = module :=
  if_pos rfl

theorem assigned_withModule (state : ProcessState α) (path : Path) (module : ModuleState α)
    (name : Name) (value : Attribute α)
    (parameters : module.parameters = (state.modules path).parameters)
    (attributes : ∀ other, module.attributes.get? other =
      if other = name then some value else (state.modules path).attributes.get? other) :
    Assigned path name value state (state.withModule path module) where
  saves := rfl
  others := fun other apart => if_neg apart
  parameters := by
    rw [withModule_self, parameters]
  attributes := by
    intro other
    rw [withModule_self, attributes]

theorem onModule_setAttr (state : ProcessState α) (path : Path) (name : Name)
    (value : Attribute α) (unregistered : name ∉ (state.modules path).parameters.keys) :
    ∃ after, onModule path (fun module => module.setAttr name value) state =
        ⟨[], after, .ok ()⟩ ∧ Assigned path name value state after := by
  refine ⟨state.withModule path ⟨(state.modules path).parameters,
    (state.modules path).attributes.set name value⟩, ?_, ?_⟩
  · rw [onModule, ModuleState.setAttr, if_neg unregistered]
  · exact assigned_withModule _ _ _ _ _ rfl fun other => Dict.get?_set _ _ _ _

theorem onModule_free (state : ProcessState α) (path : Path) (name : Name) (slot : Slot)
    (unregistered : name ∉ (state.modules path).parameters.keys) :
    ∃ after, onModule path (fun module => module.free name slot) state = ⟨[], after, .ok ()⟩ ∧
      Assigned path name (.memory slot) state after := by
  have kept : ∃ module : ModuleState α, (state.modules path).free name slot = some module ∧
      module.parameters = (state.modules path).parameters ∧
      ∀ other, module.attributes.get? other = if other = name then some (.memory slot)
        else (state.modules path).attributes.get? other := by
    have assigned (module : ModuleState α)
        (parameters : module.parameters = (state.modules path).parameters) :
        module.setAttr name (.memory slot) =
          some ⟨module.parameters, module.attributes.set name (.memory slot)⟩ := by
      rw [ModuleState.setAttr, if_neg (by rw [parameters]; exact unregistered)]
    have deleted : (state.modules path).delAttr name = ⟨(state.modules path).parameters,
        (state.modules path).attributes.erase name⟩ := by
      rw [ModuleState.delAttr, if_neg unregistered]
    unfold ModuleState.free
    dsimp only
    split
    · exact ⟨_, assigned _ rfl, rfl, fun other => Dict.get?_set _ _ _ _⟩
    · split
      · exact ⟨_, assigned _ rfl, rfl, fun other => Dict.get?_set _ _ _ _⟩
      · rw [deleted]
        refine ⟨_, assigned _ rfl, rfl, fun other => ?_⟩
        rw [Dict.get?_set, Dict.get?_erase]
        split
        · rfl
        · rfl
  obtain ⟨module, freed, parameters, attributes⟩ := kept
  refine ⟨state.withModule path module, ?_, assigned_withModule _ _ _ _ _ parameters attributes⟩
  rw [onModule, freed]

structure Assigns (path : Path) (parameters : Dict Name Slot)
    (issued : Name × Slot → List Transfer) (value : Name × Slot → Attribute α)
    (body : Name × Slot → Process α Unit) (entry : Name × Slot) : Prop where
  marked : shardPrefix <+: entry.1 → ∀ state,
    (state.modules path).parameters = parameters →
      ∃ after, body entry state = ⟨issued entry, after, .ok ()⟩ ∧
        Assigned path (entry.1.drop shardPrefix.length) (value entry) state after
  unmarked : ¬ shardPrefix <+: entry.1 → ∀ state, body entry state = ⟨[], state, .ok ()⟩

structure AssignedAll (path : Path) (value : Name × Slot → Attribute α)
    (entries : List (Name × Slot)) (state after : ProcessState α) : Prop where
  saves : after.saves = state.saves
  others : ∀ other, other ≠ path → after.modules other = state.modules other
  parameters : (after.modules path).parameters = (state.modules path).parameters
  assigned : ∀ name slot, (shardName name, slot) ∈ entries →
    (after.modules path).attributes.get? name = some (value (shardName name, slot))
  untouched : ∀ name, (∀ slot, (shardName name, slot) ∉ entries) →
    (after.modules path).attributes.get? name = (state.modules path).attributes.get? name

theorem forEach_assigns (path : Path) (parameters : Dict Name Slot)
    (issued : Name × Slot → List Transfer) (value : Name × Slot → Attribute α)
    (body : Name × Slot → Process α Unit) (entries : List (Name × Slot))
    (distinct : (entries.map Prod.fst).Nodup)
    (each : ∀ entry ∈ entries, Assigns path parameters issued value body entry)
    (state : ProcessState α) (registered : (state.modules path).parameters = parameters) :
    ∃ after, forEach body entries state =
        ⟨(entries.filter fun entry => decide (shardPrefix <+: entry.1)).flatMap issued, after,
          .ok ()⟩ ∧ AssignedAll path value entries state after := by
  induction entries generalizing state with
  | nil =>
      refine ⟨state, rfl, rfl, fun _ _ => rfl, rfl, ?_, fun _ _ => rfl⟩
      intro name slot member
      cases member
  | cons entry rest ih =>
      rw [List.map_cons, List.nodup_cons] at distinct
      rw [List.forall_mem_cons] at each
      by_cases marked : shardPrefix <+: entry.1
      · obtain ⟨middle, ran, first⟩ := each.1.marked marked state registered
        obtain ⟨after, looped, later⟩ := ih distinct.2 each.2 middle
          (first.parameters.trans registered)
        have mine := eq_shardName_of_marked entry.1 marked
        refine ⟨after, ?_, ?_⟩
        · rw [forEach, andThen_ok (by rw [ran]), ran, looped,
            List.filter_cons_of_pos (by simpa using marked), List.flatMap_cons]
        · refine ⟨later.saves.trans first.saves, ?_,
            later.parameters.trans first.parameters, ?_, ?_⟩
          · exact fun other apart => (later.others other apart).trans (first.others other apart)
          · intro name slot member
            rcases List.mem_cons.mp member with rfl | further
            · have fresh : ∀ other, (shardName name, other) ∉ rest := fun other present =>
                distinct.1 (List.mem_map.mpr ⟨_, present, rfl⟩)
              rw [later.untouched name fresh, first.attributes, if_pos (by rw [drop_shardName])]
            · exact later.assigned name slot further
          · intro name absent
            have fresh : ∀ slot, (shardName name, slot) ∉ rest := fun slot present =>
              absent slot (List.mem_cons_of_mem _ present)
            rw [later.untouched name fresh, first.attributes, if_neg]
            intro same
            rw [← same] at mine
            exact absent entry.2 (by rw [← mine]; exact List.mem_cons_self)
      · have ran := each.1.unmarked marked state
        obtain ⟨after, looped, later⟩ := ih distinct.2 each.2 state registered
        have unlike : ∀ name slot, (shardName name, slot) ≠ entry := by
          intro name slot same
          rw [← same] at marked
          exact marked (isPrefix_shardName name)
        refine ⟨after, ?_, later.saves, later.others, later.parameters, ?_, ?_⟩
        · rw [forEach, andThen_ok (by rw [ran]), ran, looped,
            List.filter_cons_of_neg (by simpa using marked), List.nil_append]
        · intro name slot member
          rcases List.mem_cons.mp member with same | further
          · exact absurd same (unlike name slot)
          · exact later.assigned name slot further
        · intro name absent
          exact later.untouched name fun slot present =>
            absent slot (List.mem_cons_of_mem _ present)

end Assigning

end ScalarLM.Training
