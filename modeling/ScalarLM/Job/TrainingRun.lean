import ScalarLM.Job.CheckpointFiles
import ScalarLM.Lib.Transition

/-! A training job over the life of its job directory: the processes that Slurm starts one
after the other, each of which may be killed between any two of its file operations. -/

namespace ScalarLM.Job

structure JobConfig where
  maxSteps : Int
  stepsPerCheckpoint : Int
  maxCheckpointsToKeep : Int

/-- A batch source: the batches of each epoch, in their order. -/
abbrev Dataset (Batch : Type) := Nat → List Batch

structure DataLoader (Batch : Type) where
  epoch : Nat
  iterator : List Batch

section Loading

variable {Batch : Type} (dataset : Dataset Batch)

def DataLoader.start : DataLoader Batch where
  epoch := 0
  iterator := dataset 0

def DataLoader.next (loader : DataLoader Batch) : Option (Batch × DataLoader Batch) :=
  match loader.iterator with
  | batch :: rest => some (batch, { loader with iterator := rest })
  | [] =>
      match dataset (loader.epoch + 1) with
      | batch :: rest => some (batch, ⟨loader.epoch + 1, rest⟩)
      | [] => none

end Loading

/-- A checkpoint. The states of the model, the optimizer and the scheduler are given by the
updates that led to them: the number of each step and its batch. -/
structure Checkpoint (Batch : Type) where
  updates : List (Nat × Batch)
  step : Nat
  epoch : Nat

/-- What is in a checkpoint file; any beginning of it that is not all of it is cut. -/
inductive FileContent (Batch : Type) where
  | cut
  | complete (checkpoint : Checkpoint Batch)

/-- `status.json`, of which only the key `history` is read by the training. -/
inductive StatusFile (History : Type) where
  | unreadable
  | readable (history : Option History)

/-- `get_status`, which answers with a fresh dictionary when the file cannot be read. -/
def StatusFile.history {History : Type} : StatusFile History → Option History
  | .unreadable => none
  | .readable history => history

/-- What `update_history` makes of the history; it may raise. -/
structure HistoryRecord (History : Type) where
  empty : History
  record : History → Nat → Option History

/-- Where a process is in `train_loop`; `final` tells the checkpoint after the loop. -/
inductive Phase (Batch : Type) where
  | starting
  | resuming
  | loop
  | recording
  | stepEnd
  | saving (final : Bool)
  | writing (checkpoint : Checkpoint Batch) (final : Bool)
  | listing (final : Bool)
  | deleting (checkpoints : List Nat) (final : Bool)
  | completing
  | ended
  | failing
  | exited

/-- A write of `status.json`: before the file is opened, or with its new contents still
on their way. -/
inductive StatusWrite (History : Type) where
  | computed (history : Option History)
  | opened (history : Option History)

structure Process (Batch History : Type) where
  phase : Phase Batch
  statusWrite : Option (StatusWrite History)
  currentStep : Nat
  epoch : Option Nat
  nextStep : Nat
  shouldStop : Bool
  loader : DataLoader Batch
  history : History
  updates : List (Nat × Batch)

/-- The job directory and the running process. `written` is history: a checkpoint has been
written completely. -/
structure TrainingJob (Batch History : Type) where
  files : Dict Nat (FileContent Batch)
  status : StatusFile History
  process : Option (Process Batch History)
  written : Bool

inductive Event (History : Type) where
  /-- Slurm starts the job's process; an earlier one has ended by then. -/
  | start
  /-- The next operation of the process, and whether the timeout has struck by then. -/
  | advance (timedOut : Bool)
  /-- An exception is raised where the process stands. -/
  | raises
  | kill
  /-- The server or another rank writes `status.json`. -/
  | statusWritten (status : StatusFile History)

section Steps

variable {Batch History : Type} (config : JobConfig) (dataset : Dataset Batch)
  (records : HistoryRecord History)

def newProcess : Process Batch History where
  phase := .starting
  statusWrite := none
  currentStep := 0
  epoch := none
  nextStep := 0
  shouldStop := false
  loader := .start dataset
  history := records.empty
  updates := []

variable (job : TrainingJob Batch History) (process : Process Batch History)

def TrainingJob.run (next : Process Batch History) : TrainingJob Batch History :=
  { job with process := some next }

def TrainingJob.goTo (phase : Phase Batch) : TrainingJob Batch History :=
  job.run { process with phase := phase }

def updateStatus (history : Option History) (phase : Phase Batch) : TrainingJob Batch History :=
  job.run { process with
    statusWrite := some (.computed (history.or job.status.history))
    phase := phase }

def resume : TrainingJob Batch History :=
  match getLatestCheckpoint job.files with
  | none => job.goTo process .loop
  | some (_, .cut) => job.goTo process .failing
  | some (_, .complete checkpoint) =>
      match job.status.history with
      | none => job.goTo process .failing
      | some history =>
          job.run { process with
            currentStep := checkpoint.step
            epoch := some checkpoint.epoch
            nextStep := checkpoint.step
            history := history
            updates := checkpoint.updates
            phase := .loop }

def trainStep : TrainingJob Batch History :=
  if process.shouldStop = false ∧ (process.nextStep : Int) < config.maxSteps then
    match process.loader.next dataset with
    | none => job.goTo process .failing
    | some (batch, loader) =>
        job.run { process with
          currentStep := process.nextStep
          epoch := some process.loader.epoch
          nextStep := process.nextStep + 1
          loader := loader
          updates := process.updates ++ [(process.nextStep, batch)]
          phase := .recording }
  else job.goTo process (.saving true)

def updateHistory : TrainingJob Batch History :=
  match records.record process.history process.currentStep with
  | none => job.goTo process .failing
  | some history => updateStatus job { process with history := history } (some history) .stepEnd

/-- `TimeoutCallback` and `CheckpointCallback`; no step is divisible by a zero. -/
def onStepEnd (timedOut : Bool) : TrainingJob Batch History :=
  let after := { process with shouldStop := process.shouldStop || timedOut }
  if config.stepsPerCheckpoint = 0 then job.goTo after .failing
  else if (process.currentStep : Int) % config.stepsPerCheckpoint = 0 ∧ process.currentStep ≠ 0 then
    job.goTo after (.saving false)
  else job.goTo after .loop

/-- `torch.save` opens the file. A process that has made no step has no epoch to save. -/
def saveCheckpoint (final : Bool) : TrainingJob Batch History :=
  match process.epoch with
  | none => job.goTo process .failing
  | some epoch =>
      { job with
        files := job.files.set process.currentStep .cut
        process := some { process with
          phase := .writing ⟨process.updates, process.currentStep, epoch⟩ final } }

def finishWriting (checkpoint : Checkpoint Batch) (final : Bool) : TrainingJob Batch History :=
  { job with
    files := job.files.set checkpoint.step (.complete checkpoint)
    process := some { process with phase := .listing final }
    written := true }

def deleteNext (final : Bool) : List Nat → TrainingJob Batch History
  | [] => job.goTo process (if final then .completing else .loop)
  | step :: rest =>
      { job with
        files := job.files.erase step
        process := some { process with phase := .deleting rest final } }

def perform (timedOut : Bool) : TrainingJob Batch History :=
  match process.phase with
  | .starting => updateStatus job process none .resuming
  | .resuming => resume job process
  | .loop => trainStep config dataset job process
  | .recording => updateHistory records job process
  | .stepEnd => onStepEnd config job process timedOut
  | .saving final => saveCheckpoint job process final
  | .writing checkpoint final => finishWriting job process checkpoint final
  | .listing final => job.goTo process
      (.deleting (oldCheckpoints config.maxCheckpointsToKeep job.files) final)
  | .deleting checkpoints final => deleteNext job process final checkpoints
  | .completing => updateStatus job process none .ended
  | .ended => job
  | .failing => updateStatus job process none .exited
  | .exited => job

def advance (timedOut : Bool) : TrainingJob Batch History :=
  match job.process with
  | none => job
  | some process =>
      match process.statusWrite with
      | some (.computed history) =>
          { job with
            status := .unreadable
            process := some { process with statusWrite := some (.opened history) } }
      | some (.opened history) =>
          { job with
            status := .readable history
            process := some { process with statusWrite := none } }
      | none => perform config dataset records job process timedOut

/-- The exception handler of `main` writes the status; it is not inside a handler itself. -/
def raises : TrainingJob Batch History :=
  match job.process with
  | none => job
  | some process =>
      match process.phase with
      | .ended => job
      | .exited => job
      | .failing => job.run { process with phase := .exited, statusWrite := none }
      | _ => job.run { process with phase := .failing, statusWrite := none }

def Phase.Early : Phase Batch → Prop
  | .starting => True
  | .resuming => True
  | _ => False

def Phase.isWriting : Phase Batch → Bool
  | .writing _ _ => true
  | _ => false

def Phase.Running : Phase Batch → Prop
  | .starting => False
  | .resuming => False
  | .failing => False
  | .exited => False
  | _ => True

def step : Event History → TrainingJob Batch History
  | .start => job.run (newProcess dataset records)
  | .advance timedOut => advance config dataset records job timedOut
  | .raises => raises job
  | .kill => { job with process := none }
  | .statusWritten status => { job with status := status }

def submitted : TrainingJob Batch History where
  files := .empty
  status := .readable none
  process := none
  written := false

end Steps

section Sample

def threeBatches : Dataset Char := fun _ => ['a', 'b', 'c']

def noHistory : HistoryRecord Unit where
  empty := ()
  record := fun _ _ => some ()

/-- The process advances by a number of operations; no timeout strikes. -/
def advances (count : Nat) : List (Event Unit) := List.replicate count (.advance false)

end Sample

end ScalarLM.Job
