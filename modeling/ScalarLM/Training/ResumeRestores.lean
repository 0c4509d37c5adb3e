import ScalarLM.Training.Resume

/-! On how many ranks a resumed run gets its training state back. -/

namespace ScalarLM.Training

section Names

variable {α : Type} [Zero α] (worldSize : Nat) (tensors : Nat → Tensor α)

mutual

theorem wrapLayer_members (rank other : Nat) (path place : Path) : ∀ module : Module,
    (wrapLayer worldSize rank tensors place module).members path =
      (wrapLayer worldSize other tensors place module).members path
  | .mk parameters children => by
      rw [wrapLayer, wrapLayer]
      split
      · rw [Wrapped.members, Wrapped.members, wrapLayers_members rank other path place [] children]
      · rw [Wrapped.members, Wrapped.members, Wrapped.members, Wrapped.members,
          wrapLayers_members rank other _ place _ children]

theorem wrapLayers_members (rank other : Nat) (path place : Path) (replaced : List Name) :
    ∀ children : Children,
      (wrapLayers worldSize rank tensors place replaced children).members path =
        (wrapLayers worldSize other tensors place replaced children).members path
  | .nil => by rw [wrapLayers, wrapLayers]
  | .cons name child rest => by
      rw [wrapLayers, wrapLayers]
      split
      · exact wrapLayers_members rank other path place replaced rest
      · rw [WrappedChildren.members, WrappedChildren.members,
          wrapLayer_members rank other _ _ child,
          wrapLayers_members rank other path place replaced rest]

end

theorem loopParameters_rank (model : Model α) (rank other : Nat) :
    loopParameters worldSize rank model = loopParameters worldSize other model := by
  have same : ownNames worldSize rank model = ownNames worldSize other model := by
    unfold ownNames
    split
    · rw [simpleFSDP, simpleFSDP, Wrapped.members, Wrapped.members,
        wrapLayers_members worldSize model.tensors rank other]
    · rfl
  rw [loopParameters, loopParameters, same]

mutual

theorem gathered_wrapLayer (rank : Nat) (path place : Path) : ∀ module : Module,
    ∀ layer ∈ module.gathered place, ∀ entry ∈ (shardParameters layer.1 layer.2).entries,
      ∃ name, (name, entry.2) ∈ (wrapLayer worldSize rank tensors place module).members path
  | .mk parameters children => by
      intro layer member entry present
      rw [Module.gathered] at member
      rw [wrapLayer]
      split at member
      · rename_i bare
        rw [if_pos bare, Wrapped.members]
        obtain ⟨name, found⟩ :=
          gathered_wrapLayers rank path place children layer member entry present
        exact ⟨name, List.mem_append_right _ found⟩
      · rename_i holding
        obtain rfl := List.mem_singleton.mp member
        rw [if_neg holding, Wrapped.members, Wrapped.members]
        exact ⟨_, List.mem_append_left _ (List.mem_map.mpr ⟨entry, present, rfl⟩)⟩

theorem gathered_wrapLayers (rank : Nat) (path place : Path) : ∀ children : Children,
    ∀ layer ∈ children.gathered place, ∀ entry ∈ (shardParameters layer.1 layer.2).entries,
      ∃ name, (name, entry.2) ∈ (wrapLayers worldSize rank tensors place [] children).members path
  | .nil => by
      intro layer member
      cases member
  | .cons name child rest => by
      intro layer member entry present
      rw [Children.gathered, List.mem_append] at member
      rw [wrapLayers, if_neg List.not_mem_nil, WrappedChildren.members]
      rcases member with here | later
      · obtain ⟨full, found⟩ := gathered_wrapLayer rank (path ++ [name]) (place ++ [name]) child
          layer here entry present
        exact ⟨full, List.mem_append_left _ found⟩
      · obtain ⟨full, found⟩ := gathered_wrapLayers rank path place rest layer later entry present
        exact ⟨full, List.mem_append_right _ found⟩

end

theorem mem_loopParameters (model : Model α) (rank : Nat) (slot : Slot) :
    slot ∈ loopParameters worldSize rank model ↔
      ∃ name, (name, slot) ∈ ownNames worldSize rank model := by
  rw [loopParameters, List.mem_map]
  constructor
  · intro given
    rcases given with ⟨⟨name, _⟩, kept, rfl⟩
    exact ⟨name, firstBy_subset _ _ _ _ kept⟩
  · intro given
    rcases given with ⟨name, present⟩
    obtain ⟨first, kept, same⟩ := exists_firstBy Prod.snd [] _ _ present List.not_mem_nil
    exact ⟨first, kept, same⟩

theorem kept_loopParameters (model : Model α) (several : 1 < worldSize) (rank : Nat)
    (layer : Path × Dict Name Nat) (member : layer ∈ model.root.children.gathered [])
    (entry : Name × Slot) (kept : entry ∈ keptParameters layer) :
    entry.2 ∈ loopParameters worldSize rank model := by
  obtain ⟨name, found⟩ := gathered_wrapLayers worldSize model.tensors rank [modelName] []
    model.root.children layer member entry (firstBy_subset _ _ _ _ kept)
  rw [mem_loopParameters, ownNames, if_pos several, simpleFSDP, Wrapped.members]
  exact ⟨name, List.mem_append_right _ found⟩

end Names

section Load

variable {α η : Type} {worldSize : Nat} {model : Model α}

/-- When every saved tensor is the target of the parameter it is copied to,
loading succeeds and brings each parameter it reaches to its target. -/
theorem loadStateDict_targets (saved : Dict Path (Tensor α)) (target : Slot → Tensor α)
    (shaped : ∀ slot, (target slot).shape = slotShape worldSize model slot)
    (names : List (Path × Slot)) (state : RankState worldSize model η)
    (aimed : ∀ name slot tensor, (name, slot) ∈ names → saved.get? name = some tensor →
      tensor = target slot) :
    ∃ loaded, loadStateDict worldSize model saved names state = some loaded ∧
      ∀ slot, (state.values slot = target slot ∨
        ∃ name tensor, (name, slot) ∈ names ∧ saved.get? name = some tensor) →
          loaded.values slot = target slot := by
  induction names generalizing state with
  | nil =>
      refine ⟨state, rfl, ?_⟩
      intro slot either
      rcases either with already | ⟨name, tensor, member, _⟩
      · exact already
      · cases member
  | cons head rest ih =>
      obtain ⟨first, place⟩ := head
      have later := fun name slot tensor member =>
        aimed name slot tensor (List.mem_cons_of_mem _ member)
      cases found : saved.get? first with
      | none =>
          obtain ⟨loaded, run, reached⟩ := ih state later
          refine ⟨loaded, by rw [loadStateDict, found]; exact run, ?_⟩
          intro slot either
          rcases either with already | ⟨name, tensor, member, hit⟩
          · exact reached slot (Or.inl already)
          · rcases List.mem_cons.mp member with same | member
            · obtain ⟨rfl, rfl⟩ := Prod.mk.inj same
              rw [found] at hit
              cases hit
            · exact reached slot (Or.inr ⟨name, tensor, member, hit⟩)
      | some tensor =>
          have equal := aimed first place tensor List.mem_cons_self found
          subst equal
          obtain ⟨loaded, run, reached⟩ := ih (state.copy place _ (shaped place)) later
          refine ⟨loaded, ?_, ?_⟩
          · rw [loadStateDict, found]
            simp only [shaped place, dite_true, run]
          · intro slot either
            rcases either with already | ⟨name, tensor, member, hit⟩
            · apply reached slot
              left
              by_cases same : slot = place
              · rw [same]
                exact state.copy_self place _ (shaped place)
              · rw [state.copy_other place slot _ (shaped place) same, already]
            · rcases List.mem_cons.mp member with same | member
              · obtain ⟨rfl, rfl⟩ := Prod.mk.inj same
                exact reached slot (Or.inl (state.copy_self slot _ (shaped slot)))
              · exact reached slot (Or.inr ⟨name, tensor, member, hit⟩)

theorem loadOptimizer_saved (parameters : List Slot) (optimizer : Slot → Option (AdamState α)) :
    ∃ loaded, loadOptimizer parameters (parameters.map optimizer) = some loaded ∧
      ∀ slot ∈ parameters, loaded slot = optimizer slot := by
  refine ⟨_, if_pos (List.length_map _).symm, ?_⟩
  intro slot member
  have found : (parameters.zip (parameters.map optimizer)).lookup slot =
      some (optimizer slot) := by
    induction parameters with
    | nil => cases member
    | cons head tail ih =>
        rw [List.map_cons, List.zip_cons_cons, List.lookup_cons]
        by_cases same : slot = head
        · subst same
          simp
        · have later := (List.mem_cons.mp member).resolve_left same
          simp only [beq_eq_false_iff_ne.mpr same, ih later]
  rw [found]
  rfl

end Load

section Restore

variable {α β η : Type} [Zero α] (toFloat32 : α → β) (toOrigDtype : β → α)
  (worldSize : Nat) (model : Model α)

/-- A trainable parameter listed under a further name that only looks like a
shard's: unwrapping stops there. -/
def StrayShard : Prop :=
  ∃ layer ∈ model.root.children.gathered [], ∃ entry ∈ keptParameters layer, ∃ parameter,
    entry.2 = .whole parameter ∧ model.trainable parameter = true ∧ shardPrefix <+: entry.1

theorem allGather_shaped (ranks : 1 ≤ worldSize) (rank : Nat) (bound : rank < worldSize)
    (job : Nat → RankState worldSize model η) (place : Path) (parameter : Nat) :
    (collectivesAllGather toFloat32 toOrigDtype worldSize
      (fun sender => ((job sender).values (.shard place parameter)).data)
      (shardTensor worldSize (fun _ => model.tensors parameter) rank).2 rank).isSome := by
  have sized : ∀ sender, sender < worldSize →
      ((job sender).values (.shard place parameter)).data.length =
        shardSizeOf worldSize (model.tensors parameter).numel := by
    intro sender _
    rw [Tensor.sized, (job sender).shaped, slotShape, List.prod_singleton]
  have layout := (padded_layout worldSize (model.tensors parameter).numel ranks).1
  have count : ((gatheredBuffer toFloat32 toOrigDtype worldSize
      (fun sender => ((job sender).values (.shard place parameter)).data)).take
        (model.tensors parameter).numel).length = (model.tensors parameter).shape.prod := by
    have whole := Blocks.join_length _ worldSize
      (fun sender => ((job sender).values (.shard place parameter)).data.map
        (toOrigDtype ∘ toFloat32)) (fun sender below => by rw [List.length_map, sized sender below])
    rw [List.length_take, gatheredBuffer_eq, whole, ← (model.tensors parameter).sized]
    exact Nat.min_eq_left (by rw [← layout]; exact Nat.le_add_right _ _)
  rw [shardTensor_metadata, collectivesAllGather_eq toFloat32 toOrigDtype worldSize ranks
    (model.tensors parameter) _ sized rank bound, Tensor.reshape, dif_pos count]
  rfl

theorem modelStateDict_isSome_iff (several : 1 < worldSize)
    (job : Nat → RankState worldSize model η) (rank : Nat) (bound : rank < worldSize) :
    (modelStateDict toFloat32 toOrigDtype worldSize model job rank).isSome ↔
      ¬ StrayShard model := by
  rw [modelStateDict, if_pos several, unwrapModel, simpleFSDP, Wrapped.children,
    unwrapLayers_wrapLayers, Option.isSome_map, collect_isSome_iff]
  constructor
  · intro through given
    rcases given with ⟨layer, member, ⟨name, slot⟩, kept, parameter, rfl, active, marked⟩
    have here := (collect_isSome_iff _ _).mp (through layer member) _ kept
    rcases kept_cases layer name _ kept with ⟨_, _, _, equal⟩ | ⟨other, left, equal⟩
    · cases equal
    · cases equal
      rw [unwrapParameter_unsharded _ _ _ _ _ _ _ layer (name, parameter) left active,
        if_pos marked] at here
      cases here
  · intro clear layer member
    rw [unwrapGathered, collect_isSome_iff]
    intro given kept
    rcases given with ⟨name, slot⟩
    by_cases active : model.trainable slot.parameter = true
    · rcases kept_cases layer name slot kept with ⟨entry, survived, rfl, rfl⟩ | ⟨other, left, rfl⟩
      · rw [unwrapParameter_survivor _ _ _ _ _ _ _ layer entry survived active, Option.isSome_map]
        exact allGather_shaped toFloat32 toOrigDtype worldSize model (by omega) rank bound job _ _
      · have unmarked : ¬ shardPrefix <+: name :=
          fun marked => clear ⟨layer, member, _, kept, other, rfl, active, marked⟩
        rw [unwrapParameter_unsharded _ _ _ _ _ _ _ layer (name, other) left active,
          if_neg unmarked]
        rfl
    · rw [Bool.not_eq_true] at active
      rw [unwrapParameter_frozen _ _ _ _ _ _ _ _ _ active]
      rfl

theorem checkpoint_eq_some (job : Nat → RankState worldSize model η)
    (saved : Checkpoint α η)
    (taken : checkpoint toFloat32 toOrigDtype worldSize model job = some saved) :
    ∃ dict, modelStateDict toFloat32 toOrigDtype worldSize model job 0 = some dict ∧
      saved = saveCheckpoint worldSize model job dict := by
  rw [checkpoint] at taken
  split at taken
  · obtain ⟨dict, run, rfl⟩ := Option.map_eq_some_iff.mp taken
    exact ⟨dict, run, rfl⟩
  · cases taken

/-- On a single rank every trainable parameter is saved and loaded under its
first name, and the optimizer's states go back to their places. -/
theorem resume_single (fresh : Nat → RankState 1 model η) :
    ResumeRestores toFloat32 toOrigDtype 1 model fresh := by
  intro job saved taken rank bound
  obtain rfl : rank = 0 := by omega
  obtain ⟨dict, run, rfl⟩ := checkpoint_eq_some toFloat32 toOrigDtype 1 model job saved taken
  rw [modelStateDict, if_neg (by decide)] at run
  obtain ⟨dict', run', content⟩ := filterCheckpoint_eq model
    (fun parameter => (job 0).values (.whole parameter))
  rw [run, Option.some.injEq] at run'
  subst run'
  have names : ownNames 1 0 model =
      (model.root.members []).map fun entry => (entry.1, .whole entry.2) := if_neg (by decide)
  have aimed : ∀ name slot tensor, (name, slot) ∈ ownNames 1 0 model →
      dict.get? name = some tensor → tensor = (job 0).values slot := by
    intro name slot tensor present found
    rw [names] at present
    obtain ⟨⟨own, parameter⟩, member, equal⟩ := List.mem_map.mp present
    obtain ⟨rfl, rfl⟩ := Prod.mk.inj equal
    obtain ⟨other, listed, _, rfl⟩ := (content _ _).mp ((Dict.get?_eq_some_iff _ _ _).mp found)
    rw [model.name_unique _ _ _ (model.namedParameters_subset _ listed) member]
  obtain ⟨loaded, loadRun, reached⟩ := loadStateDict_targets dict (job 0).values (job 0).shaped
    (ownNames 1 0 model) (fresh 0) aimed
  obtain ⟨optimizer, optimizerRun, positions⟩ :=
    loadOptimizer_saved (loopParameters 1 0 model) (job 0).optimizer
  refine ⟨_, by
    rw [resumeFromCheckpoint, saveCheckpoint]
    simp only [loadRun, optimizerRun, Option.bind_eq_bind, Option.bind_some]
    rfl, ?_⟩
  intro slot member active
  refine ⟨reached slot (Or.inr ?_), positions slot member⟩
  obtain ⟨name, present⟩ := (mem_loopParameters 1 model 0 slot).mp member
  rw [names] at present
  obtain ⟨⟨own, parameter⟩, known, equal⟩ := List.mem_map.mp present
  obtain ⟨rfl, rfl⟩ := Prod.mk.inj equal
  obtain ⟨⟨first, same⟩, listed, alike⟩ := exists_firstBy Prod.snd [] _ _ known List.not_mem_nil
  dsimp only at alike
  subst alike
  refine ⟨first, (job 0).values (.whole same), ?_, ?_⟩
  · rw [names]
    exact List.mem_map.mpr ⟨_, firstBy_subset _ _ _ _ listed, rfl⟩
  · exact (Dict.get?_eq_some_iff _ _ _).mpr ((content _ _).mpr ⟨same, listed, active, rfl⟩)

theorem resume_frozen (several : 1 < worldSize) (fresh : Nat → RankState worldSize model η)
    (frozen : ∀ slot ∈ loopParameters worldSize 0 model, model.trainable slot.parameter = false) :
    ResumeRestores toFloat32 toOrigDtype worldSize model fresh := by
  intro job saved taken rank bound
  obtain ⟨dict, run, rfl⟩ := checkpoint_eq_some toFloat32 toOrigDtype worldSize model
    job saved taken
  have empty : ∀ name, dict.get? name = none := by
    intro name
    rw [Dict.get?_eq_none_iff]
    intro tensor member
    rw [modelStateDict, if_pos several, unwrapModel, simpleFSDP, Wrapped.children,
      unwrapLayers_wrapLayers] at run
    obtain ⟨assignments, collected, rfl⟩ := Option.map_eq_some_iff.mp run
    obtain ⟨layer, within, out, produced, assigned⟩ :=
      (mem_collect _ _ _ collected _).mp (Dict.assigned_of_mem _ _ _ member)
    obtain ⟨entry, kept, here, step, product⟩ := (mem_collect _ _ _ produced _).mp assigned
    have unmoved := frozen _ (kept_loopParameters worldSize model several 0 layer within entry kept)
    rw [unwrapParameter_frozen _ _ _ _ _ _ _ _ _ unmoved, Option.some.injEq] at step
    subst step
    cases product
  obtain ⟨loaded, loadRun, _⟩ := loadStateDict_targets dict (fresh rank).values (fresh rank).shaped
    (ownNames worldSize rank model) (fresh rank)
    (fun name slot tensor _ found => by rw [empty] at found; cases found)
  rw [loopParameters_rank worldSize model 0 rank] at frozen
  obtain ⟨optimizer, optimizerRun, _⟩ :=
    loadOptimizer_saved (loopParameters worldSize rank model) (job 0).optimizer
  refine ⟨_, by
    rw [resumeFromCheckpoint, saveCheckpoint, loopParameters_rank worldSize model 0 rank]
    simp only [loadRun, optimizerRun, Option.bind_eq_bind, Option.bind_some]
    rfl, ?_⟩
  intro slot member active
  rw [frozen slot member] at active
  cases active

/-- Every rank of a resumed run has the optimizer state of rank 0. -/
theorem resume_optimizer (job : Nat → RankState worldSize model η)
    (saved : Checkpoint α η)
    (taken : checkpoint toFloat32 toOrigDtype worldSize model job = some saved) (rank : Nat)
    (fresh resumed : RankState worldSize model η)
    (run : resumeFromCheckpoint worldSize model rank saved fresh = some resumed) :
    ∀ slot ∈ loopParameters worldSize rank model,
      resumed.optimizer slot = (job 0).optimizer slot := by
  obtain ⟨dict, _, rfl⟩ := checkpoint_eq_some toFloat32 toOrigDtype worldSize model
    job saved taken
  obtain ⟨optimizer, optimizerRun, positions⟩ :=
    loadOptimizer_saved (loopParameters worldSize rank model) (job 0).optimizer
  rw [resumeFromCheckpoint, saveCheckpoint, loopParameters_rank worldSize model 0 rank] at run
  simp only [optimizerRun, Option.bind_eq_bind, Option.bind_some] at run
  cases loadRun : loadStateDict worldSize model dict (ownNames worldSize rank model) fresh with
  | none => simp [loadRun] at run
  | some loaded =>
      simp only [loadRun, Option.bind_some, Option.some.injEq] at run
      subst run
      exact positions

/-- A resumed run has its training state back exactly when there is one rank, or
nothing to train, or no checkpoint. -/
theorem resume_restores_iff (ranks : 1 ≤ worldSize)
    (fresh : Nat → RankState worldSize model η) :
    ResumeRestores toFloat32 toOrigDtype worldSize model fresh ↔
      worldSize = 1 ∨
        (∀ slot ∈ loopParameters worldSize 0 model, model.trainable slot.parameter = false) ∨
        StrayShard model := by
  constructor
  · intro restores
    by_cases single : worldSize = 1
    · exact Or.inl single
    have several : 1 < worldSize := by omega
    by_cases stray : StrayShard model
    · exact Or.inr (Or.inr stray)
    refine Or.inr (Or.inl ?_)
    intro slot member
    by_contra active
    rw [Bool.not_eq_false] at active
    -- the ranks' optimizers have taken different numbers of steps
    let job : Nat → RankState worldSize model η := fun rank =>
      { fresh rank with
        optimizer := fun slot =>
          some ⟨rank, (fresh rank).values slot, (fresh rank).values slot⟩ }
    have through : ∀ rank < worldSize,
        (modelStateDict toFloat32 toOrigDtype worldSize model job rank).isSome :=
      fun rank bound => (modelStateDict_isSome_iff toFloat32 toOrigDtype worldSize model several
        job rank bound).mpr stray
    obtain ⟨dict, run⟩ := Option.isSome_iff_exists.mp (through 0 (by omega))
    have taken : checkpoint toFloat32 toOrigDtype worldSize model job =
        some (saveCheckpoint worldSize model job dict) := by
      rw [checkpoint, if_pos through, run]
      rfl
    obtain ⟨resumed, resumeRun, restored⟩ := restores job _ taken 1 several
    rw [loopParameters_rank worldSize model 0 1] at member
    have own := (restored slot member active).2
    rw [resume_optimizer toFloat32 toOrigDtype worldSize model job _ taken 1 _ resumed
      resumeRun slot member, Option.some.injEq, AdamState.mk.injEq] at own
    exact absurd own.1 (by decide)
  · intro either
    rcases either with rfl | frozen | stray
    · exact resume_single toFloat32 toOrigDtype model fresh
    · by_cases single : worldSize = 1
      · subst single
        exact resume_single toFloat32 toOrigDtype model fresh
      · exact resume_frozen toFloat32 toOrigDtype worldSize model (by omega) fresh frozen
    · by_cases single : worldSize = 1
      · subst single
        exact resume_single toFloat32 toOrigDtype model fresh
      · intro job saved taken
        obtain ⟨dict, run, _⟩ := checkpoint_eq_some toFloat32 toOrigDtype worldSize model
          job saved taken
        have clear := (modelStateDict_isSome_iff toFloat32 toOrigDtype worldSize model (by omega)
          job 0 (by omega)).mp (by rw [run]; rfl)
        exact absurd stray clear

end Restore

def uniformState (worldSize : Nat) (model : Model Int) (number : Int) :
    RankState worldSize model Unit :=
  let filled (slot : Slot) : Tensor Int := ⟨slotShape worldSize model slot,
    List.replicate (slotShape worldSize model slot).prod number, List.length_replicate⟩
  { values := filled
    optimizer := fun slot => some ⟨1, filled slot, filled slot⟩
    scheduler := ()
    currentStep := 1
    epoch := 0
    shaped := fun _ => rfl }

/-- Two ranks train to 9 and resume with the shards of a fresh model. -/
theorem resume_not_restored_two_ranks :
    ¬ ∀ (worldSize : Nat) (model : Model Int) (fresh : Nat → RankState worldSize model Unit),
      1 ≤ worldSize → ResumeRestores id id worldSize model fresh := by
  intro claimed
  have restores := claimed 2 flatModel (fun _ => uniformState 2 flatModel 0) (by decide)
  let job : Nat → RankState 2 flatModel Unit := fun _ => uniformState 2 flatModel 9
  let slot : Slot := .shard [['a'], ['p']] 0
  have outcome : ((checkpoint id id 2 flatModel job).bind fun saved =>
      (resumeFromCheckpoint 2 flatModel 0 saved (uniformState 2 flatModel 0)).map fun resumed =>
        (resumed.values slot).data) = some [0, 0] := by decide
  cases taken : checkpoint id id 2 flatModel job with
  | none => rw [taken] at outcome; cases outcome
  | some saved =>
      obtain ⟨resumed, run, restored⟩ := restores job saved taken 0 (by decide)
      rw [taken, Option.bind_some, run, Option.map_some, Option.some.injEq] at outcome
      have back := (restored slot (by decide) (by decide)).1
      rw [back] at outcome
      exact absurd outcome (by decide)

/-- On one rank the same model resumes where it stopped. -/
theorem resume_restores_one_rank :
    ResumeRestores id id 1 flatModel (fun _ => uniformState 1 flatModel 0) :=
  (resume_restores_iff id id 1 flatModel le_rfl (fun _ => uniformState 1 flatModel 0)).mpr
    (Or.inl rfl)

end ScalarLM.Training
