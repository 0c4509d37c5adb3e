import ScalarLM.Lib.Issued
import ScalarLM.Loop.History
import ScalarLM.Training.Fsdp

/-! The collective operations that one rank of a training run issues. -/

namespace ScalarLM.Loop

open Issued Training

/-- A transfer of the shards of one parameter between all ranks. -/
inductive Transfer where
  | gather (shard : Path)
  | reduceScatter (shard : Path)
  deriving DecidableEq

inductive Collective where
  | barrier
  | allreduce
  | shardMetadata (parameter : Path)
  | transfer (transfer : Transfer)
  deriving DecidableEq

section Wrapping

mutual

def wrapLayerIssues (path : Path) : Module → List Collective
  | .mk parameters children =>
      if parameters.entries.isEmpty then wrapLayersIssues path [] children
      else
        (ownParameters parameters).map (fun entry => .shardMetadata (path ++ [entry.1])) ++
          wrapLayersIssues path ((ownParameters parameters).map fun entry => shardName entry.1)
            children

def wrapLayersIssues (path : Path) (replaced : List Name) : Children → List Collective
  | .nil => []
  | .cons name child rest =>
      if name ∈ replaced then wrapLayersIssues path replaced rest
      else wrapLayerIssues (path ++ [name]) child ++ wrapLayersIssues path replaced rest

end

variable (requiresGrad : Nat → Bool)

def unwrapParameterIssues (path : Path) (metadata : Dict Name (List ShardMetadata))
    (entry : Name × Slot) : Issued Transfer Unit :=
  if requiresGrad entry.2.parameter then
    if shardPrefix <+: entry.1 then
      match metadata.get? (entry.1.drop shardPrefix.length) with
      | none => raised
      | some _ => issue [.gather (path ++ [entry.1.drop shardPrefix.length])] ()
    else issue [] ()
  else issue [] ()

mutual

def unwrapLayerIssues (path : Path) : Wrapped → Issued Transfer Unit
  | .fsdpLayer metadata module =>
      forEach (unwrapParameterIssues requiresGrad path metadata)
        (firstBy Prod.snd [] module.parameters.entries)
  | .plain _ children => unwrapLayersIssues path children

def unwrapLayersIssues (path : Path) : WrappedChildren → Issued Transfer Unit
  | .nil => issue [] ()
  | .cons name child rest =>
      (unwrapLayerIssues (path ++ [name]) child).andThen fun _ => unwrapLayersIssues path rest

end

end Wrapping

structure LoopConfig (Time : Type) where
  maxSteps : Int
  stepsPerCheckpoint : Int
  timeout : Time
  trainingHistoryLength : Int

/-- The readings of a rank's clock: when its `TimeoutCallback` is created and at the end
of each step. -/
structure RankClock (Time : Type) where
  startTime : Time
  stepEnd : Nat → Time

structure TrainingState (Data : Type) where
  currentStep : Nat
  hasEpoch : Bool
  history : List (HistoryEntry Data)
  shouldStopTraining : Bool

/-- The transfers of each step: forward, in the order in which the model calls its layers,
and backward, in the order in which autograd visits them. -/
structure Passes where
  forward : Nat → List Transfer
  backward : Nat → List Transfer

/-- A decorated function: between two barriers, on rank 0 only. -/
def mainRankOnly {σ : Type} (rank : Nat) (state : σ) (func : σ → Option σ) :
    Issued Collective σ :=
  if rank = 0 then
    match func state with
    | none => ⟨[.barrier], none⟩
    | some after => issue [.barrier, .barrier] after
  else issue [.barrier, .barrier] state

section Program

variable {α Data Time : Type} [Zero α] [Sub Time] [LT Time]
  [DecidableRel fun left right : Time => left < right]
  (worldSize : Nat) (model : Model α) (config : LoopConfig Time) (passes : Passes)
  (data : Nat → Data) (clock : Nat → RankClock Time)

def whenWrapped (operations : List Collective) : List Collective :=
  if 1 < worldSize then operations else []

/-- The state without a checkpoint to resume from has no epoch. -/
def startState (resumed : Option (Nat × List (HistoryEntry Data))) : TrainingState Data :=
  match resumed with
  | none => ⟨0, false, [], false⟩
  | some (step, history) => ⟨step, true, history, false⟩

def updateHistory (state : TrainingState Data) : Option (TrainingState Data) :=
  let history := state.history ++ [⟨state.currentStep, data state.currentStep⟩]
  if config.trainingHistoryLength < history.length then
    (removeClosestEntry config.trainingHistoryLength history).map fun kept =>
      { state with history := kept }
  else some { state with history := history }

/-- The forward pass, the loss, the backward pass, `update_history` and
`print_training_step_info`. -/
def trainingStep (rank : Nat) (state : TrainingState Data) :
    Issued Collective (TrainingState Data) :=
  (issue (whenWrapped worldSize
    ((passes.forward state.currentStep).map .transfer ++ .allreduce ::
      (passes.backward state.currentStep).map .transfer)) state).andThen fun state =>
  (mainRankOnly rank state (updateHistory config data)).andThen fun state =>
  mainRankOnly rank state some

/-- The checkpoint has the epoch, an attribute that only a step or a resumption sets. -/
def saveCheckpoint (state : TrainingState Data) : Option (TrainingState Data) :=
  if state.hasEpoch then some state else none

def unwrapIssues (rank : Nat) : Issued Transfer Unit :=
  if 1 < worldSize then
    unwrapLayersIssues model.trainable []
      (simpleFSDP worldSize rank model.tensors model.root).children
  else issue [] ()

def checkpoint (rank : Nat) (state : TrainingState Data) :
    Issued Collective (TrainingState Data) :=
  ((unwrapIssues worldSize model rank).relabel .transfer).andThen fun _ =>
    mainRankOnly rank state saveCheckpoint

def Expired (rank step : Nat) : Prop :=
  config.timeout < (clock rank).stepEnd step - (clock rank).startTime

instance (rank step : Nat) : Decidable (Expired config clock rank step) :=
  inferInstanceAs (Decidable (_ < _))

def timeoutCallback (rank step : Nat) (state : TrainingState Data) : TrainingState Data :=
  if Expired config clock rank step then { state with shouldStopTraining := true } else state

/-- `CheckpointCallback`; the remainder by zero raises. -/
def checkpointCallback (rank step : Nat) (state : TrainingState Data) :
    Issued Collective (TrainingState Data) :=
  if config.stepsPerCheckpoint = 0 then raised
  else if (step : Int) % config.stepsPerCheckpoint = 0 ∧ step ≠ 0 then
    checkpoint worldSize model rank state
  else issue [] state

def trainSteps (rank : Nat) :
    Nat → Nat → TrainingState Data → Issued Collective (TrainingState Data)
  | 0, _, state => issue [] state
  | left + 1, step, state =>
      (trainingStep worldSize config passes data rank
        { state with currentStep := step, hasEpoch := true }).andThen fun state =>
      (checkpointCallback worldSize model config rank step
        (timeoutCallback config clock rank step state)).andThen fun state =>
      if state.shouldStopTraining then issue [] state
      else trainSteps rank left (step + 1) state

/-- `train`: the model is downloaded and wrapped, the loop runs, and the last checkpoint
is taken. -/
def train (resumed : Option (Nat × List (HistoryEntry Data))) (rank : Nat) :
    Issued Collective (TrainingState Data) :=
  (mainRankOnly rank (startState resumed) some).andThen fun state =>
  (issue (whenWrapped worldSize (wrapLayersIssues [] [] model.root.children)) state).andThen
    fun state =>
  (mainRankOnly rank state some).andThen fun state =>
  (trainSteps worldSize model config passes data clock rank
    (config.maxSteps - state.currentStep).toNat state.currentStep state).andThen fun state =>
  checkpoint worldSize model rank state

end Program

end ScalarLM.Loop
