import ScalarLM.Training.CheckpointAgreement

/-! Taking a checkpoint of a training run and resuming a fresh run from it. -/

namespace ScalarLM.Training

/-- AdamW's state for one parameter. -/
structure AdamState (α : Type) where
  step : Nat
  expAvg : Tensor α
  expAvgSq : Tensor α

section Loop

variable {α : Type} [Zero α] (worldSize rank : Nat) (model : Model α)

def modelName : Name := ['m', 'o', 'd', 'e', 'l']

/-- The names the training loop's module gives its parameters: the model alone
on one rank, the wrapped model on several. -/
def ownNames : List (Path × Slot) :=
  if 1 < worldSize then
    (simpleFSDP worldSize rank model.tensors model.root).members [modelName]
  else
    (model.root.members []).map fun entry => (entry.1, .whole entry.2)

/-- `parameters()`, in the order in which the optimizer numbers them. -/
def loopParameters : List Slot := (firstBy Prod.snd [] (ownNames worldSize rank model)).map Prod.snd

omit [Zero α] in
def slotShape : Slot → List Nat
  | .whole parameter => (model.tensors parameter).shape
  | .shard _ parameter => [shardSizeOf worldSize (model.tensors parameter).numel]

end Loop

/-- The training state of one rank's process. -/
structure RankState {α : Type} (worldSize : Nat) (model : Model α) (η : Type) where
  values : Slot → Tensor α
  optimizer : Slot → Option (AdamState α)
  scheduler : η
  currentStep : Nat
  epoch : Nat
  shaped : ∀ slot, (values slot).shape = slotShape worldSize model slot

structure Checkpoint (α η : Type) where
  modelStateDict : Dict Path (Tensor α)
  optimizerStateDict : List (Option (AdamState α))
  schedulerStateDict : η
  step : Nat
  epoch : Nat

section Checkpointing

variable {α β η : Type} [Zero α] (toFloat32 : α → β) (toOrigDtype : β → α)
  (worldSize : Nat) (model : Model α)

/-- `checkpoint` up to the point where only the main rank goes on. -/
def modelStateDict (job : Nat → RankState worldSize model η) (rank : Nat) :
    Option (Dict Path (Tensor α)) :=
  if 1 < worldSize then
    unwrapModel toFloat32 toOrigDtype worldSize rank model.trainable
      (fun sender => (job sender).values) (simpleFSDP worldSize rank model.tensors model.root)
  else
    filterCheckpoint model (model.stateDict fun parameter => (job rank).values (.whole parameter))

def saveCheckpoint (job : Nat → RankState worldSize model η)
    (modelStateDict : Dict Path (Tensor α)) : Checkpoint α η where
  modelStateDict := modelStateDict
  optimizerStateDict := (loopParameters worldSize 0 model).map (job 0).optimizer
  schedulerStateDict := (job 0).scheduler
  step := (job 0).currentStep
  epoch := (job 0).epoch

/-- The checkpoint, if every rank gets through. -/
def checkpoint (job : Nat → RankState worldSize model η) : Option (Checkpoint α η) :=
  if ∀ rank < worldSize,
      (modelStateDict toFloat32 toOrigDtype worldSize model job rank).isSome then
    (modelStateDict toFloat32 toOrigDtype worldSize model job 0).map
      (saveCheckpoint worldSize model job)
  else none

omit [Zero α] in
def RankState.copy {worldSize : Nat} {model : Model α}
    (state : RankState worldSize model η) (slot : Slot) (tensor : Tensor α)
    (fits : tensor.shape = slotShape worldSize model slot) :
    RankState worldSize model η where
  values := fun other => if other = slot then tensor else state.values other
  optimizer := state.optimizer
  scheduler := state.scheduler
  currentStep := state.currentStep
  epoch := state.epoch
  shaped := by
    intro other
    by_cases same : other = slot
    · rw [if_pos same, fits, same]
    · rw [if_neg same, state.shaped]

omit [Zero α] in
theorem RankState.copy_self {worldSize : Nat} {model : Model α}
    (state : RankState worldSize model η) (slot : Slot) (tensor : Tensor α)
    (fits : tensor.shape = slotShape worldSize model slot) :
    (state.copy slot tensor fits).values slot = tensor :=
  if_pos rfl

omit [Zero α] in
theorem RankState.copy_other {worldSize : Nat} {model : Model α}
    (state : RankState worldSize model η) (slot other : Slot) (tensor : Tensor α)
    (fits : tensor.shape = slotShape worldSize model slot)
    (apart : other ≠ slot) : (state.copy slot tensor fits).values other = state.values other :=
  if_neg apart

omit [Zero α] in
/-- `load_state_dict(strict=False)`: a saved tensor is copied wherever its key is
an own name, and must then have the right shape. -/
def loadStateDict (saved : Dict Path (Tensor α)) :
    List (Path × Slot) → RankState worldSize model η → Option (RankState worldSize model η)
  | [], state => some state
  | (name, slot) :: rest, state =>
      match saved.get? name with
      | none => loadStateDict saved rest state
      | some tensor =>
          if fits : tensor.shape = slotShape worldSize model slot then
            loadStateDict saved rest (state.copy slot tensor fits)
          else none

omit [Zero α] in
/-- The optimizer takes the saved states by position and refuses another number
of parameters. -/
def loadOptimizer (parameters : List Slot) (saved : List (Option (AdamState α))) :
    Option (Slot → Option (AdamState α)) :=
  if parameters.length = saved.length then
    some fun slot => ((parameters.zip saved).lookup slot).join
  else none

def resumeFromCheckpoint (rank : Nat) (saved : Checkpoint α η)
    (fresh : RankState worldSize model η) : Option (RankState worldSize model η) := do
  let loaded ← loadStateDict worldSize model saved.modelStateDict
    (ownNames worldSize rank model) fresh
  let optimizer ← loadOptimizer (loopParameters worldSize rank model) saved.optimizerStateDict
  some { loaded with
    optimizer := optimizer
    scheduler := saved.schedulerStateDict
    currentStep := saved.step
    epoch := saved.epoch }

/-- On every rank each trainable parameter, and the optimizer's state for it, is
what it was when the checkpoint was taken. -/
def ResumeRestores (fresh : Nat → RankState worldSize model η) : Prop :=
  ∀ (job : Nat → RankState worldSize model η) (saved : Checkpoint α η),
    checkpoint toFloat32 toOrigDtype worldSize model job = some saved →
    ∀ rank, rank < worldSize → ∃ resumed,
      resumeFromCheckpoint worldSize model rank saved (fresh rank) = some resumed ∧
        ∀ slot ∈ loopParameters worldSize rank model, model.trainable slot.parameter = true →
          resumed.values slot = (job rank).values slot ∧
            resumed.optimizer slot = (job rank).optimizer slot

end Checkpointing

end ScalarLM.Training
