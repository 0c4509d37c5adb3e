import ScalarLM.Loop.RankProgram
import ScalarLM.Training.CheckpointAgreement

/-! Whether all ranks of a training run issue the same collective operations. -/

namespace ScalarLM.Loop

open Issued Lockstep Training

section Wrapping

variable {α : Type} [Zero α] (worldSize : Nat) (tensors : Nat → Tensor α)

theorem shardedParameterMetadata_rank (rank other : Nat) (parameters : Dict Name Nat) :
    shardedParameterMetadata worldSize rank tensors parameters =
      shardedParameterMetadata worldSize other tensors parameters :=
  rfl

mutual

theorem wrapLayer_rank (rank other : Nat) (path : Path) : ∀ module : Module,
    wrapLayer worldSize rank tensors path module = wrapLayer worldSize other tensors path module
  | .mk parameters children => by
      rw [wrapLayer, wrapLayer, shardedParameterMetadata_rank worldSize tensors rank other,
        wrapLayers_rank rank other path _ children, wrapLayers_rank rank other path _ children]

theorem wrapLayers_rank (rank other : Nat) (path : Path) (replaced : List Name) :
    ∀ children : Children,
    wrapLayers worldSize rank tensors path replaced children =
      wrapLayers worldSize other tensors path replaced children
  | .nil => by rw [wrapLayers, wrapLayers]
  | .cons name child rest => by
      rw [wrapLayers, wrapLayers, wrapLayer_rank rank other (path ++ [name]) child,
        wrapLayers_rank rank other path replaced rest]

end

theorem unwrapIssues_rank (model : Model α) (rank other : Nat) :
    unwrapIssues worldSize model rank = unwrapIssues worldSize model other := by
  rw [unwrapIssues, unwrapIssues, simpleFSDP, simpleFSDP,
    wrapLayers_rank worldSize model.tensors rank other]

end Wrapping

section MainRank

variable {σ τ : Type} {worldSize : Nat}

theorem agree_mainRankOnly (states : Nat → σ) (func : σ → Option σ) (after : σ)
    (returns : func (states 0) = some after) (next : Nat → σ → Issued Collective τ) :
    Agree worldSize
        (fun rank => ((mainRankOnly rank (states rank) func).andThen (next rank)).operations) ↔
      Agree worldSize
        (fun rank => (next rank (if rank = 0 then after else states rank)).operations) := by
  refine agree_andThen (fun rank => mainRankOnly rank (states rank) func) next
    [.barrier, .barrier] (fun rank => if rank = 0 then after else states rank) ?_
  intro rank _
  rw [mainRankOnly]
  split
  · rename_i main
    rw [main, returns]
  · rfl

theorem agree_mainRankOnly_some (states : Nat → σ) (next : Nat → σ → Issued Collective τ) :
    Agree worldSize
        (fun rank => ((mainRankOnly rank (states rank) some).andThen (next rank)).operations) ↔
      Agree worldSize (fun rank => (next rank (states rank)).operations) := by
  rw [agree_mainRankOnly states some (states 0) rfl]
  have same (rank : Nat) : (if rank = 0 then states 0 else states rank) = states rank := by
    split
    · rename_i main
      rw [main]
    · rfl
  simp only [same]

/-- A decorated function that raises leaves the other ranks in its second barrier. -/
theorem not_agree_mainRankOnly (many : 1 < worldSize) (states : Nat → σ) (func : σ → Option σ)
    (raises : func (states 0) = none) (next : Nat → σ → Issued Collective τ) :
    ¬ Agree worldSize
      (fun rank => ((mainRankOnly rank (states rank) func).andThen (next rank)).operations) := by
  intro agree
  have same := congrArg List.length (agree 0 (by omega) 1 many)
  dsimp only at same
  rw [mainRankOnly, if_pos rfl, raises, andThen_none rfl, mainRankOnly, if_neg (by decide)] at same
  simp [andThen, issue] at same

end MainRank

section Recording

variable {Data Time : Type} (config : LoopConfig Time) (data : Nat → Data)

def TrainingState.withHistory (state : TrainingState Data) (kept : List (HistoryEntry Data)) :
    TrainingState Data :=
  { state with history := kept }

def HistoryFits (length : Nat) : Prop :=
  2 ≤ config.trainingHistoryLength ∨ (length : Int) + 1 ≤ config.trainingHistoryLength

theorem updateHistory_cases (state : TrainingState Data) :
    (HistoryFits config state.history.length ∧ ∃ kept,
      updateHistory config data state = some (state.withHistory kept) ∧
        (2 ≤ config.trainingHistoryLength ∨ kept.length = state.history.length + 1)) ∨
    (¬ HistoryFits config state.history.length ∧ updateHistory config data state = none) := by
  have length (entry : HistoryEntry Data) :
      ((state.history ++ [entry]).length : Int) = state.history.length + 1 := by
    rw [List.length_append, List.length_singleton, Int.natCast_add]
    rfl
  rw [updateHistory, HistoryFits, length]
  split
  · rename_i long
    cases kept : removeClosestEntry config.trainingHistoryLength
        (state.history ++ [⟨state.currentStep, data state.currentStep⟩]) with
    | none =>
        rw [removeClosestEntry_none_iff, length] at kept
        refine .inr ⟨?_, rfl⟩
        omega
    | some history =>
        have not_none : ¬ removeClosestEntry config.trainingHistoryLength
            (state.history ++ [⟨state.currentStep, data state.currentStep⟩]) = none := by
          simp [kept]
        rw [removeClosestEntry_none_iff, length] at not_none
        exact .inl ⟨.inl (by omega), history, rfl, .inl (by omega)⟩
  · rename_i short
    refine .inl ⟨.inr (by omega), _, rfl, .inr ?_⟩
    rw [List.length_append, List.length_singleton]

end Recording

section Checkpoint

variable {α Data τ : Type} [Zero α] (worldSize : Nat) (model : Model α)

def UnwrapRaises : Prop := (unwrapIssues worldSize model 0).result = none

theorem unwrap_cases :
    (UnwrapRaises worldSize model ∧ ∃ gathers : List Collective, ∀ rank,
      (unwrapIssues worldSize model rank).relabel .transfer = ⟨gathers, none⟩) ∨
    (¬ UnwrapRaises worldSize model ∧ ∃ gathers : List Collective, ∀ rank,
      (unwrapIssues worldSize model rank).relabel .transfer = issue gathers ()) := by
  have same (rank : Nat) := unwrapIssues_rank worldSize model rank 0
  cases returned : (unwrapIssues worldSize model 0).result with
  | none =>
      refine .inl ⟨returned, (unwrapIssues worldSize model 0).operations.map .transfer, ?_⟩
      intro rank
      rw [same rank, relabel, returned]
  | some _ =>
      refine .inr ⟨?_, (unwrapIssues worldSize model 0).operations.map .transfer, ?_⟩
      · rw [UnwrapRaises, returned]
        exact Option.some_ne_none _
      · intro rank
        rw [same rank, relabel, returned]
        rfl

variable {worldSize model} (states : Nat → TrainingState Data)
  (next : Nat → TrainingState Data → Issued Collective τ)

theorem agree_checkpoint_raises (raises : UnwrapRaises worldSize model) :
    Agree worldSize
      (fun rank => ((checkpoint worldSize model rank (states rank)).andThen (next rank)).operations)
    := by
  rcases unwrap_cases worldSize model with ⟨_, gathers, same⟩ | ⟨returns, _⟩
  · simp only [checkpoint, andThen_assoc]
    exact agree_raised _ (fun rank _ =>
      (mainRankOnly rank (states rank) saveCheckpoint).andThen (next rank)) gathers
      fun rank _ => same rank
  · exact absurd raises returns

theorem agree_checkpoint_returns (returns : ¬ UnwrapRaises worldSize model)
    (known : (states 0).hasEpoch = true) :
    Agree worldSize
        (fun rank =>
          ((checkpoint worldSize model rank (states rank)).andThen (next rank)).operations) ↔
      Agree worldSize (fun rank => (next rank (states rank)).operations) := by
  rcases unwrap_cases worldSize model with ⟨raises, _⟩ | ⟨_, gathers, same⟩
  · exact absurd raises returns
  · simp only [checkpoint, andThen_assoc]
    refine (agree_andThen _ (fun rank _ =>
      (mainRankOnly rank (states rank) saveCheckpoint).andThen (next rank)) gathers
      (fun _ => ()) fun rank _ => same rank).trans ?_
    have saved : saveCheckpoint (states 0) = some (states 0) := by rw [saveCheckpoint, if_pos known]
    rw [agree_mainRankOnly states saveCheckpoint (states 0) saved,
      ← agree_mainRankOnly states some (states 0) rfl, agree_mainRankOnly_some]

theorem not_agree_checkpoint (many : 1 < worldSize) (returns : ¬ UnwrapRaises worldSize model)
    (unknown : (states 0).hasEpoch = false) :
    ¬ Agree worldSize
      (fun rank =>
        ((checkpoint worldSize model rank (states rank)).andThen (next rank)).operations) := by
  rcases unwrap_cases worldSize model with ⟨raises, _⟩ | ⟨_, gathers, same⟩
  · exact absurd raises returns
  · simp only [checkpoint, andThen_assoc]
    rw [agree_andThen _ (fun rank _ =>
      (mainRankOnly rank (states rank) saveCheckpoint).andThen (next rank)) gathers
      (fun _ => ()) fun rank _ => same rank]
    refine not_agree_mainRankOnly many states saveCheckpoint ?_ next
    rw [saveCheckpoint, unknown]
    rfl

theorem agree_last_iff (many : 1 < worldSize) :
    Agree worldSize (fun rank => (checkpoint worldSize model rank (states rank)).operations) ↔
      (states 0).hasEpoch = true ∨ UnwrapRaises worldSize model := by
  have ending : (fun rank => (checkpoint worldSize model rank (states rank)).operations) =
      fun rank =>
        ((checkpoint worldSize model rank (states rank)).andThen (issue [])).operations :=
    funext fun rank => by rw [andThen_issue]
  rw [ending]
  by_cases raises : UnwrapRaises worldSize model
  · exact iff_of_true (agree_checkpoint_raises states (fun _ => issue []) raises) (.inr raises)
  · cases epoch : (states 0).hasEpoch with
    | true =>
        refine iff_of_true ?_ (.inl rfl)
        rw [agree_checkpoint_returns states (fun _ => issue []) raises epoch]
        exact fun _ _ _ _ => rfl
    | false =>
        refine iff_of_false
          (not_agree_checkpoint states (fun _ => issue []) many raises epoch) ?_
        simp [raises]

end Checkpoint

section Step

variable {Data Time τ : Type} {worldSize : Nat} {config : LoopConfig Time} {passes : Passes}
  {data : Nat → Data} (step : Nat) (states : Nat → TrainingState Data)
  (at_step : ∀ rank, (states rank).currentStep = step)
  (next : Nat → TrainingState Data → Issued Collective τ)

include at_step

variable (worldSize) in
theorem agree_trainingStep (fits : HistoryFits config (states 0).history.length) :
    ∃ kept : List (HistoryEntry Data),
      (2 ≤ config.trainingHistoryLength ∨ kept.length = (states 0).history.length + 1) ∧
      (Agree worldSize (fun rank =>
          ((trainingStep worldSize config passes data rank (states rank)).andThen
            (next rank)).operations) ↔
        Agree worldSize (fun rank => (next rank
          (if rank = 0 then (states 0).withHistory kept else states rank)).operations)) := by
  rcases updateHistory_cases config data (states 0) with ⟨_, kept, updated, length⟩ | ⟨not, _⟩
  · refine ⟨kept, length, ?_⟩
    simp only [trainingStep, andThen_assoc, at_step]
    refine (agree_andThen _ (fun rank state =>
      (mainRankOnly rank state (updateHistory config data)).andThen fun state =>
        (mainRankOnly rank state some).andThen (next rank)) _ states fun _ _ => rfl).trans ?_
    rw [agree_mainRankOnly states (updateHistory config data) _ updated]
    exact agree_mainRankOnly_some
      (fun rank => if rank = 0 then (states 0).withHistory kept else states rank) next
  · exact absurd fits not

theorem not_agree_trainingStep (many : 1 < worldSize)
    (tooLong : ¬ HistoryFits config (states 0).history.length) :
    ¬ Agree worldSize (fun rank =>
      ((trainingStep worldSize config passes data rank (states rank)).andThen
        (next rank)).operations) := by
  rcases updateHistory_cases config data (states 0) with ⟨fits, _⟩ | ⟨_, raises⟩
  · exact absurd fits tooLong
  · simp only [trainingStep, andThen_assoc, at_step]
    rw [agree_andThen _ (fun rank state =>
      (mainRankOnly rank state (updateHistory config data)).andThen fun state =>
        (mainRankOnly rank state some).andThen (next rank)) _ states fun _ _ => rfl]
    exact not_agree_mainRankOnly many states (updateHistory config data) raises _

end Step

section Callback

variable {α Data Time τ : Type} [Zero α] (worldSize : Nat) (model : Model α)
  (config : LoopConfig Time)

def RaisesAtEnd (step : Nat) : Prop :=
  config.stepsPerCheckpoint = 0 ∨
    (((step : Int) % config.stepsPerCheckpoint = 0 ∧ step ≠ 0) ∧ UnwrapRaises worldSize model)

variable {worldSize model config} {step : Nat} (states : Nat → TrainingState Data)
  (next : Nat → TrainingState Data → Issued Collective τ)

theorem agree_checkpointCallback_raises (raises : RaisesAtEnd worldSize model config step) :
    Agree worldSize (fun rank =>
      ((checkpointCallback worldSize model config rank step (states rank)).andThen
        (next rank)).operations) := by
  by_cases zero : config.stepsPerCheckpoint = 0
  · simp only [checkpointCallback, if_pos zero]
    exact agree_raised (fun _ => raised) next [] fun _ _ => rfl
  · rcases raises with isZero | ⟨divides, unwrap⟩
    · exact absurd isZero zero
    · simp only [checkpointCallback, if_neg zero, if_pos divides]
      exact agree_checkpoint_raises states next unwrap

theorem agree_checkpointCallback (goesOn : ¬ RaisesAtEnd worldSize model config step)
    (known : (states 0).hasEpoch = true) :
    Agree worldSize (fun rank =>
        ((checkpointCallback worldSize model config rank step (states rank)).andThen
          (next rank)).operations) ↔
      Agree worldSize (fun rank => (next rank (states rank)).operations) := by
  rw [RaisesAtEnd, not_or, not_and] at goesOn
  by_cases divides : (step : Int) % config.stepsPerCheckpoint = 0 ∧ step ≠ 0
  · simp only [checkpointCallback, if_neg goesOn.1, if_pos divides]
    exact agree_checkpoint_returns states next (goesOn.2 divides) known
  · simp only [checkpointCallback, if_neg goesOn.1, if_neg divides]
    exact agree_andThen (fun rank => issue [] (states rank)) next [] states fun _ _ => rfl

end Callback

section Agreement

variable {α Data Time : Type} [Zero α] [Sub Time] [LT Time]
  [DecidableRel fun left right : Time => left < right]
  (worldSize : Nat) (model : Model α) (config : LoopConfig Time) (passes : Passes)
  (data : Nat → Data) (clock : Nat → RankClock Time)

def Reached (first step : Nat) : Prop :=
  first ≤ step ∧ (step : Int) < config.maxSteps ∧
    ∀ earlier, first ≤ earlier → earlier < step →
      ¬ RaisesAtEnd worldSize model config earlier ∧
        ∀ rank < worldSize, ¬ Expired config clock rank earlier

/-- In a step the history fits, and at its end the time is over for all ranks or for none,
unless it is the last step or all of them raise. -/
structure InStep (first length step : Nat) : Prop where
  fits : HistoryFits config (length + (step - first))
  together : ¬ RaisesAtEnd worldSize model config step → (step : Int) + 1 < config.maxSteps →
    ∀ rank < worldSize, ∀ other < worldSize,
      (Expired config clock rank step ↔ Expired config clock other step)

/-- The condition for a run: there is an epoch to save, and each step keeps the ranks
together. -/
def StaysTogether (resumed : Option (Nat × List (HistoryEntry Data))) : Prop :=
  (((startState resumed).currentStep : Int) < config.maxSteps ∨ resumed.isSome = true ∨
    UnwrapRaises worldSize model) ∧
  ∀ step, Reached worldSize model config clock (startState resumed).currentStep step →
    InStep worldSize model config clock (startState resumed).currentStep
      (startState resumed).history.length step

variable {worldSize model config passes data clock}

def afterStep (worldSize : Nat) (model : Model α) (config : LoopConfig Time) (passes : Passes)
    (data : Nat → Data) (clock : Nat → RankClock Time) (rank left step : Nat)
    (state : TrainingState Data) : Issued Collective (TrainingState Data) :=
  if state.shouldStopTraining then checkpoint worldSize model rank state
  else
    (trainSteps worldSize model config passes data clock rank left step state).andThen
      (checkpoint worldSize model rank)

theorem trainSteps_succ (rank left step : Nat) (state : TrainingState Data) :
    (trainSteps worldSize model config passes data clock rank (left + 1) step state).andThen
        (checkpoint worldSize model rank) =
      (trainingStep worldSize config passes data rank
        { state with currentStep := step, hasEpoch := true }).andThen fun state =>
      (checkpointCallback worldSize model config rank step
        (timeoutCallback config clock rank step state)).andThen
      (afterStep worldSize model config passes data clock rank left (step + 1)) := by
  rw [trainSteps, andThen_assoc]
  congr 1
  funext state
  rw [andThen_assoc]
  congr 1
  funext state
  rw [afterStep]
  split
  · rfl
  · rfl

theorem allreduce_mem_trainSteps (many : 1 < worldSize) (rank left step : Nat)
    (state : TrainingState Data) :
    .allreduce ∈ ((trainSteps worldSize model config passes data clock rank (left + 1) step
      state).andThen (checkpoint worldSize model rank)).operations := by
  rw [trainSteps_succ, trainingStep, andThen_assoc, andThen_some rfl, whenWrapped, if_pos many]
  simp [issue]

variable (worldSize model) in
theorem allreduce_not_mem_checkpoint (rank : Nat) (state : TrainingState Data) :
    .allreduce ∉ (checkpoint worldSize model rank state).operations := by
  have barriers : .allreduce ∉ (mainRankOnly rank state saveCheckpoint).operations := by
    rw [mainRankOnly]
    split
    · split <;> simp [issue]
    · simp [issue]
  rw [checkpoint]
  cases returned : ((unwrapIssues worldSize model rank).relabel Collective.transfer).result with
  | none =>
      rw [andThen_none returned]
      simp [relabel]
  | some _ =>
      rw [andThen_some returned, List.mem_append, not_or]
      exact ⟨by simp [relabel], barriers⟩

theorem timeoutCallback_expired {rank step : Nat} (expired : Expired config clock rank step)
    (state : TrainingState Data) :
    (timeoutCallback config clock rank step state).shouldStopTraining = true := by
  rw [timeoutCallback, if_pos expired]

theorem timeoutCallback_early {rank step : Nat} (early : ¬ Expired config clock rank step)
    (state : TrainingState Data) : timeoutCallback config clock rank step state = state := by
  rw [timeoutCallback, if_neg early]

theorem timeoutCallback_hasEpoch (rank step : Nat) (state : TrainingState Data) :
    (timeoutCallback config clock rank step state).hasEpoch = state.hasEpoch := by
  rw [timeoutCallback]
  split <;> rfl

section Rest

variable (many : 1 < worldSize) {step : Nat} {states : Nat → TrainingState Data}
  (going : ∀ rank, (states rank).shouldStopTraining = false)
  (known : (states 0).hasEpoch = true)

include many known

theorem agree_afterStep_last (left : Nat)
    (last : left = 0 ∨ ∀ rank < worldSize, Expired config clock rank step) :
    Agree worldSize (fun rank =>
      (afterStep worldSize model config passes data clock rank left (step + 1)
        (timeoutCallback config clock rank step (states rank))).operations) := by
  have ending (rank : Nat) (below : rank < worldSize) :
      (afterStep worldSize model config passes data clock rank left (step + 1)
        (timeoutCallback config clock rank step (states rank))).operations =
      (checkpoint worldSize model rank
        (timeoutCallback config clock rank step (states rank))).operations := by
    rw [afterStep]
    split
    · rfl
    · rename_i goesOn
      rcases last with rfl | expired
      · rfl
      · exact absurd (timeoutCallback_expired (expired rank below) (states rank)) goesOn
  have agree : Agree worldSize (fun rank => (checkpoint worldSize model rank
      (timeoutCallback config clock rank step (states rank))).operations) :=
    (agree_last_iff (fun rank => timeoutCallback config clock rank step (states rank)) many).mpr
      (.inl ((timeoutCallback_hasEpoch 0 step (states 0)).trans known))
  intro rank below other within
  dsimp only
  rw [ending rank below, ending other within]
  exact agree rank below other within

omit known many in
include going in
theorem agree_afterStep_early (left : Nat)
    (early : ∀ rank < worldSize, ¬ Expired config clock rank step) :
    Agree worldSize (fun rank =>
        (afterStep worldSize model config passes data clock rank left (step + 1)
          (timeoutCallback config clock rank step (states rank))).operations) ↔
      Agree worldSize (fun rank =>
        ((trainSteps worldSize model config passes data clock rank left (step + 1)
          (states rank)).andThen (checkpoint worldSize model rank)).operations) := by
  have same (rank : Nat) (below : rank < worldSize) :
      afterStep worldSize model config passes data clock rank left (step + 1)
        (timeoutCallback config clock rank step (states rank)) =
      (trainSteps worldSize model config passes data clock rank left (step + 1)
        (states rank)).andThen (checkpoint worldSize model rank) := by
    rw [timeoutCallback_early (early rank below), afterStep, going rank]
    rfl
  constructor
  · intro agree rank below other within
    have equal := agree rank below other within
    dsimp only at equal ⊢
    rw [← same rank below, ← same other within]
    exact equal
  · intro agree rank below other within
    dsimp only
    rw [same rank below, same other within]
    exact agree rank below other within

omit known in
include going in
/-- A rank that stops while another one goes on misses the allreduce of the next step. -/
theorem not_agree_afterStep (left : Nat) {rank other : Nat} (below : rank < worldSize)
    (within : other < worldSize) (expired : Expired config clock rank step)
    (early : ¬ Expired config clock other step) :
    ¬ Agree worldSize (fun rank =>
      (afterStep worldSize model config passes data clock rank (left + 1) (step + 1)
        (timeoutCallback config clock rank step (states rank))).operations) := by
  intro agree
  have same := agree rank below other within
  dsimp only at same
  rw [timeoutCallback_early early, afterStep,
    if_pos (timeoutCallback_expired expired (states rank)), afterStep, going other] at same
  have missing := allreduce_not_mem_checkpoint worldSize model rank
    (timeoutCallback config clock rank step (states rank))
  rw [same] at missing
  exact missing (allreduce_mem_trainSteps many other left (step + 1) (states other))

end Rest

omit [DecidableRel fun left right : Time => left < right] in
/-- The condition on all steps from one on is that on this step and on the later ones, which
are reached unless the run ends here. -/
theorem forall_inStep_iff (step length : Nat) (below : (step : Int) < config.maxSteps) :
    (∀ later, Reached worldSize model config clock step later →
      InStep worldSize model config clock step length later) ↔
    HistoryFits config length ∧ (¬ RaisesAtEnd worldSize model config step →
      ((step : Int) + 1 < config.maxSteps → ∀ rank < worldSize, ∀ other < worldSize,
        (Expired config clock rank step ↔ Expired config clock other step)) ∧
      ((∀ rank < worldSize, ¬ Expired config clock rank step) →
        ∀ later, Reached worldSize model config clock (step + 1) later →
          InStep worldSize model config clock (step + 1) (length + 1) later)) := by
  have here : Reached worldSize model config clock step step :=
    ⟨Nat.le_refl _, below, fun earlier low high => absurd low (Nat.not_le.mpr high)⟩
  constructor
  · intro all
    have now := all step here
    refine ⟨?_, fun goesOn => ⟨now.together goesOn, ?_⟩⟩
    · have fits := now.fits
      rw [Nat.sub_self, Nat.add_zero] at fits
      exact fits
    · intro early later reached
      rcases reached with ⟨after, bound, before⟩
      have inside := all later ⟨by omega, bound, fun earlier low high => by
        by_cases first : earlier = step
        · rw [first]
          exact ⟨goesOn, early⟩
        · exact before earlier (by omega) high⟩
      refine ⟨?_, inside.together⟩
      have fits := inside.fits
      rw [show length + (later - step) = length + 1 + (later - (step + 1)) by omega] at fits
      exact fits
  · intro given later reached
    rcases given with ⟨fits, onward⟩
    rcases reached with ⟨after, bound, before⟩
    by_cases first : later = step
    · rw [first]
      refine ⟨?_, fun goesOn => (onward goesOn).1⟩
      rw [Nat.sub_self, Nat.add_zero]
      exact fits
    · obtain ⟨goesOn, early⟩ := before step (Nat.le_refl _) (by omega)
      have inside := (onward goesOn).2 early later
        ⟨by omega, bound, fun earlier low high => before earlier (by omega) high⟩
      refine ⟨?_, inside.together⟩
      rw [show length + (later - step) = length + 1 + (later - (step + 1)) by omega]
      exact inside.fits

/-- The end of a step keeps the ranks together when all of them raise, and otherwise when
they all stop or all go on, if there is a further step. -/
theorem agree_stepEnd_iff (many : 1 < worldSize) (left step length : Nat)
    (states : Nat → TrainingState Data)
    (going : ∀ rank, (states rank).shouldStopTraining = false)
    (known : (states 0).hasEpoch = true)
    (count : (config.maxSteps - step).toNat = left + 1)
    (rest : Agree worldSize (fun rank =>
        ((trainSteps worldSize model config passes data clock rank left (step + 1)
          (states rank)).andThen (checkpoint worldSize model rank)).operations) ↔
      (0 < left ∨ (states 0).hasEpoch = true ∨ UnwrapRaises worldSize model) ∧
      ∀ later, Reached worldSize model config clock (step + 1) later →
        InStep worldSize model config clock (step + 1) length later) :
    Agree worldSize (fun rank =>
        ((checkpointCallback worldSize model config rank step
          (timeoutCallback config clock rank step (states rank))).andThen
          (afterStep worldSize model config passes data clock rank left
            (step + 1))).operations) ↔
      (¬ RaisesAtEnd worldSize model config step →
        ((step : Int) + 1 < config.maxSteps → ∀ rank < worldSize, ∀ other < worldSize,
          (Expired config clock rank step ↔ Expired config clock other step)) ∧
        ((∀ rank < worldSize, ¬ Expired config clock rank step) →
          ∀ later, Reached worldSize model config clock (step + 1) later →
            InStep worldSize model config clock (step + 1) length later)) := by
  by_cases raises : RaisesAtEnd worldSize model config step
  · exact iff_of_true
      (agree_checkpointCallback_raises
        (fun rank => timeoutCallback config clock rank step (states rank)) _ raises)
      fun goesOn => absurd raises goesOn
  · rw [agree_checkpointCallback
      (fun rank => timeoutCallback config clock rank step (states rank)) _ raises
      ((timeoutCallback_hasEpoch 0 step (states 0)).trans known)]
    have first : 0 < worldSize := Nat.lt_of_succ_lt many
    by_cases early : ∀ rank < worldSize, ¬ Expired config clock rank step
    · rw [agree_afterStep_early going left early, rest]
      constructor
      · intro given _
        refine ⟨?_, fun _ => given.2⟩
        intro _ rank below other within
        exact iff_of_false (early rank below) (early other within)
      · intro given
        exact ⟨.inr (.inl known), (given raises).2 early⟩
    · by_cases last : left = 0 ∨ ∀ rank < worldSize, Expired config clock rank step
      · refine iff_of_true (agree_afterStep_last many known left last) ?_
        intro _
        refine ⟨?_, fun none => absurd none early⟩
        intro more rank below other within
        rcases last with rfl | expired
        · omega
        · exact iff_of_true (expired rank below) (expired other within)
      · rw [not_or] at last
        obtain ⟨next, rfl⟩ := Nat.exists_eq_succ_of_ne_zero last.1
        obtain ⟨rank, below, late⟩ : ∃ rank < worldSize, Expired config clock rank step := by
          by_contra none
          exact early fun rank below late => none ⟨rank, below, late⟩
        obtain ⟨other, within, soon⟩ : ∃ other < worldSize, ¬ Expired config clock other step := by
          by_contra none
          refine last.2 fun rank below => ?_
          by_contra soon
          exact none ⟨rank, below, soon⟩
        refine iff_of_false (not_agree_afterStep many going next below within late soon) ?_
        intro given
        have together := (given raises).1 (by omega) rank below other within
        exact soon (together.mp late)

/-- The ranks agree on the rest of the run exactly when every step that they come to keeps
them together. The induction is on the number of steps left. -/
theorem agree_trainSteps_iff (many : 1 < worldSize) (left step length : Nat)
    (states : Nat → TrainingState Data)
    (going : ∀ rank, (states rank).shouldStopTraining = false)
    (lengths : 2 ≤ config.trainingHistoryLength ∨ (states 0).history.length = length)
    (count : (config.maxSteps - step).toNat = left) :
    Agree worldSize (fun rank =>
        ((trainSteps worldSize model config passes data clock rank left step
          (states rank)).andThen (checkpoint worldSize model rank)).operations) ↔
      (0 < left ∨ (states 0).hasEpoch = true ∨ UnwrapRaises worldSize model) ∧
      ∀ later, Reached worldSize model config clock step later →
        InStep worldSize model config clock step length later := by
  induction left generalizing step length states with
  | zero =>
      have none (later : Nat) : ¬ Reached worldSize model config clock step later := by
        intro reached
        have bound := reached.2.1
        have low := reached.1
        omega
      refine (agree_last_iff states many).trans ?_
      constructor
      · intro given
        exact ⟨.inr given, fun later reached => absurd reached (none later)⟩
      · intro given
        exact given.1.resolve_left (Nat.lt_irrefl 0)
  | succ left ih =>
      have below : (step : Int) < config.maxSteps := by omega
      have fitsIff : HistoryFits config (states 0).history.length ↔ HistoryFits config length := by
        rw [HistoryFits, HistoryFits]
        omega
      rw [forall_inStep_iff step length below]
      simp only [trainSteps_succ, Nat.zero_lt_succ, true_or, true_and]
      by_cases fits : HistoryFits config length
      · obtain ⟨kept, keptLength, same⟩ := agree_trainingStep worldSize step
          (fun rank => { states rank with currentStep := step, hasEpoch := true })
          (fun _ => rfl) (fun rank state =>
            (checkpointCallback worldSize model config rank step
              (timeoutCallback config clock rank step state)).andThen
            (afterStep worldSize model config passes data clock rank left (step + 1)))
          (fitsIff.mpr fits)
        rw [same]
        refine (agree_stepEnd_iff many left step (length + 1) _ ?_ rfl count
          (ih (step + 1) (length + 1) _ ?_ ?_ (by omega))).trans ?_
        · intro rank
          dsimp only
          split
          · exact going 0
          · exact going rank
        · intro rank
          dsimp only
          split
          · exact going 0
          · exact going rank
        · rw [if_pos rfl]
          dsimp only [TrainingState.withHistory] at keptLength ⊢
          omega
        · exact (and_iff_right fits).symm
      · refine iff_of_false (not_agree_trainingStep step _ (fun _ => rfl) _ many ?_) ?_
        · exact fun given => fits (fitsIff.mp given)
        · exact fun given => fits given.1

theorem startState_going (resumed : Option (Nat × List (HistoryEntry Data))) :
    (startState resumed).shouldStopTraining = false := by
  cases resumed <;> rfl

theorem startState_hasEpoch (resumed : Option (Nat × List (HistoryEntry Data))) :
    (startState resumed).hasEpoch = resumed.isSome := by
  cases resumed <;> rfl

theorem agree_train_iff (many : 1 < worldSize)
    (resumed : Option (Nat × List (HistoryEntry Data))) :
    Agree worldSize
        (fun rank => (train worldSize model config passes data clock resumed rank).operations) ↔
      StaysTogether worldSize model config clock resumed := by
  simp only [train]
  rw [agree_mainRankOnly_some (fun _ => startState resumed),
    agree_andThen _ _ (whenWrapped worldSize (wrapLayersIssues [] [] model.root.children))
      (fun _ => startState resumed) fun _ _ => rfl,
    agree_mainRankOnly_some (fun _ => startState resumed),
    agree_trainSteps_iff many _ (startState resumed).currentStep
      (startState resumed).history.length _ (fun _ => startState_going resumed) (.inr rfl) rfl,
    StaysTogether, startState_hasEpoch]
  refine and_congr_left fun _ => or_congr_left ?_
  omega

end Agreement

section Diverging

def hourLimit : LoopConfig Int where
  maxSteps := 3
  stepsPerCheckpoint := 100
  timeout := 3600
  trainingHistoryLength := 1024

def oneLayer : Passes where
  forward := fun _ => [.gather [['a'], ['p']]]
  backward := fun _ => [.reduceScatter [['a'], ['p']]]

def apartClocks (rank : Nat) : RankClock Int where
  startTime := 0
  stepEnd := fun step => 3600 * (step + 1) + if rank = 0 then 1 else 0

end Diverging

end ScalarLM.Loop
