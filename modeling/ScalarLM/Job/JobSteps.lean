import ScalarLM.Job.TrainingRun

/-! What one event can do to a training job. -/

namespace ScalarLM.Job

inductive Phase.Leads {Batch : Type} : Phase Batch → Phase Batch → Prop where
  | look : Leads .starting .resuming
  | last : Leads .loop (.saving true)
  | checkpoint : Leads .stepEnd (.saving false)
  | next : Leads .stepEnd .loop
  | repeated : Leads (.deleting [] false) .loop
  | complete : Leads (.deleting [] true) .completing
  | finish : Leads .completing .ended
  | fail (phase : Phase Batch) (shut : phase.isWriting = false) : Leads phase .failing
  | leave : Leads .failing .exited

section Leads

variable {Batch : Type} {phase next : Phase Batch}

theorem Phase.Leads.not_writing (leads : phase.Leads next)
    (checkpoint : Checkpoint Batch) (final : Bool) : next ≠ .writing checkpoint final := by
  cases leads <;> simp

theorem Phase.Leads.early (leads : phase.Leads next)
    (early : next.Early) : phase.Early := by
  cases leads <;> trivial

theorem Phase.Leads.running (leads : phase.Leads next)
    (running : next.Running) : phase.Running := by
  cases leads <;> trivial

theorem Phase.Leads.from_shut (leads : phase.Leads next) :
    phase.isWriting = false := by
  cases leads with
  | fail phase shut => exact shut
  | _ => rfl

theorem Phase.Leads.to_shut (leads : phase.Leads next) :
    next.isWriting = false := by
  cases leads <;> rfl

theorem Phase.Leads.not_deleting (leads : phase.Leads next)
    (old : List Nat) (final : Bool) : next ≠ .deleting old final := by
  cases leads <;> simp

end Leads

section Steps

variable {Batch History : Type} (config : JobConfig) (dataset : Dataset Batch)
  (records : HistoryRecord History)

inductive JobStep (job : TrainingJob Batch History) :
    Event History → TrainingJob Batch History → Prop where
  | started : JobStep job .start (job.run (newProcess dataset records))
  | killed : JobStep job .kill { job with process := none }
  | statusWritten (status : StatusFile History) :
      JobStep job (.statusWritten status) { job with status := status }
  | idle (event : Event History) : JobStep job event job
  | raised (process : Process Batch History) (phase : Phase Batch)
      (now : job.process = some process) (stops : phase = .failing ∨ phase = .exited) :
      JobStep job .raises (job.run { process with phase := phase, statusWrite := none })
  | statusOpened (timedOut : Bool) (process : Process Batch History)
      (history : Option History) (now : job.process = some process)
      (pending : process.statusWrite = some (.computed history)) :
      JobStep job (.advance timedOut)
        { job with
          status := .unreadable
          process := some { process with statusWrite := some (.opened history) } }
  | statusClosed (timedOut : Bool) (process : Process Batch History)
      (history : Option History) (now : job.process = some process)
      (pending : process.statusWrite = some (.opened history)) :
      JobStep job (.advance timedOut)
        { job with
          status := .readable history
          process := some { process with statusWrite := none } }
  | moved (timedOut : Bool) (process : Process Batch History) (phase : Phase Batch)
      (shouldStop : Bool) (now : job.process = some process)
      (free : process.statusWrite = none) (leads : process.phase.Leads phase) :
      JobStep job (.advance timedOut)
        (job.run { process with phase := phase, shouldStop := shouldStop })
  | updated (timedOut : Bool) (process : Process Batch History) (phase : Phase Batch)
      (now : job.process = some process) (free : process.statusWrite = none)
      (leads : process.phase.Leads phase) :
      JobStep job (.advance timedOut) (updateStatus job process none phase)
  | recorded (timedOut : Bool) (process : Process Batch History) (history : History)
      (now : job.process = some process) (free : process.statusWrite = none)
      (place : process.phase = .recording) :
      JobStep job (.advance timedOut)
        (updateStatus job { process with history := history } (some history) .stepEnd)
  | fresh (timedOut : Bool) (process : Process Batch History)
      (now : job.process = some process) (free : process.statusWrite = none)
      (place : process.phase = .resuming)
      (none : getLatestCheckpoint job.files = none) :
      JobStep job (.advance timedOut) (job.goTo process .loop)
  | resumed (timedOut : Bool) (process : Process Batch History) (name : Nat)
      (checkpoint : Checkpoint Batch) (history : History)
      (now : job.process = some process) (free : process.statusWrite = none)
      (place : process.phase = .resuming)
      (latest : getLatestCheckpoint job.files = some (name, .complete checkpoint))
      (known : job.status.history = some history) :
      JobStep job (.advance timedOut)
        (job.run { process with
          currentStep := checkpoint.step
          epoch := some checkpoint.epoch
          nextStep := checkpoint.step
          history := history
          updates := checkpoint.updates
          phase := .loop })
  | trained (timedOut : Bool) (process : Process Batch History) (batch : Batch)
      (loader : DataLoader Batch)
      (now : job.process = some process) (free : process.statusWrite = none)
      (place : process.phase = .loop)
      (below : (process.nextStep : Int) < config.maxSteps)
      (drawn : process.loader.next dataset = some (batch, loader)) :
      JobStep job (.advance timedOut)
        (job.run { process with
          currentStep := process.nextStep
          epoch := some process.loader.epoch
          nextStep := process.nextStep + 1
          loader := loader
          updates := process.updates ++ [(process.nextStep, batch)]
          phase := .recording })
  | opened (timedOut : Bool) (process : Process Batch History) (epoch : Nat) (final : Bool)
      (now : job.process = some process) (free : process.statusWrite = none)
      (place : process.phase = .saving final)
      (known : process.epoch = some epoch) :
      JobStep job (.advance timedOut)
        { job with
          files := job.files.set process.currentStep .cut
          process := some { process with
            phase := .writing ⟨process.updates, process.currentStep, epoch⟩ final } }
  | finished (timedOut : Bool) (process : Process Batch History)
      (checkpoint : Checkpoint Batch) (final : Bool)
      (now : job.process = some process) (free : process.statusWrite = none)
      (place : process.phase = .writing checkpoint final) :
      JobStep job (.advance timedOut) (finishWriting job process checkpoint final)
  | listed (timedOut : Bool) (process : Process Batch History) (final : Bool)
      (now : job.process = some process) (free : process.statusWrite = none)
      (place : process.phase = .listing final) :
      JobStep job (.advance timedOut) (job.goTo process
        (.deleting (oldCheckpoints config.maxCheckpointsToKeep job.files) final))
  | deleted (timedOut : Bool) (process : Process Batch History) (old : Nat) (rest : List Nat)
      (final : Bool) (now : job.process = some process)
      (free : process.statusWrite = none)
      (place : process.phase = .deleting (old :: rest) final) :
      JobStep job (.advance timedOut)
        { job with
          files := job.files.erase old
          process := some { process with phase := .deleting rest final } }

variable {job : TrainingJob Batch History} {process : Process Batch History}

theorem goTo_jobStep (timedOut : Bool) (phase : Phase Batch) (now : job.process = some process)
    (free : process.statusWrite = none) (leads : process.phase.Leads phase) :
    JobStep config dataset records job (.advance timedOut) (job.goTo process phase) :=
  .moved timedOut process phase process.shouldStop now free leads

theorem resume_jobStep (timedOut : Bool) (now : job.process = some process)
    (free : process.statusWrite = none) (place : process.phase = .resuming) :
    JobStep config dataset records job (.advance timedOut) (resume job process) := by
  rw [resume]
  split
  · rename_i none
    exact .fresh timedOut process now free place none
  · exact goTo_jobStep config dataset records timedOut .failing now free
      (.fail _ (by rw [place]; rfl))
  · rename_i name checkpoint latest
    split
    · exact goTo_jobStep config dataset records timedOut .failing now free
        (.fail _ (by rw [place]; rfl))
    · rename_i history known
      exact .resumed timedOut process name checkpoint history now free place latest known

theorem trainStep_jobStep (timedOut : Bool) (now : job.process = some process)
    (free : process.statusWrite = none) (place : process.phase = .loop) :
    JobStep config dataset records job (.advance timedOut)
      (trainStep config dataset job process) := by
  rw [trainStep]
  split
  · rename_i goesOn
    split
    · exact goTo_jobStep config dataset records timedOut .failing now free
        (.fail _ (by rw [place]; rfl))
    · rename_i batch loader drawn
      exact .trained timedOut process batch loader now free place goesOn.2 drawn
  · apply goTo_jobStep config dataset records timedOut _ now free
    rw [place]
    exact .last

theorem updateHistory_jobStep (timedOut : Bool) (now : job.process = some process)
    (free : process.statusWrite = none) (place : process.phase = .recording) :
    JobStep config dataset records job (.advance timedOut)
      (updateHistory records job process) := by
  rw [updateHistory]
  split
  · exact goTo_jobStep config dataset records timedOut .failing now free
      (.fail _ (by rw [place]; rfl))
  · rename_i history _
    exact .recorded timedOut process history now free place

theorem onStepEnd_jobStep (timedOut : Bool) (now : job.process = some process)
    (free : process.statusWrite = none) (place : process.phase = .stepEnd) :
    JobStep config dataset records job (.advance timedOut)
      (onStepEnd config job process timedOut) := by
  have leads (phase : Phase Batch) (one : Phase.Leads .stepEnd phase) :
      JobStep config dataset records job (.advance timedOut)
        (job.goTo { process with shouldStop := process.shouldStop || timedOut } phase) := by
    refine .moved timedOut process phase _ now free ?_
    rw [place]
    exact one
  rw [onStepEnd]
  split
  · exact leads .failing (.fail _ rfl)
  · split
    · exact leads (.saving false) .checkpoint
    · exact leads .loop .next

theorem saveCheckpoint_jobStep (timedOut final : Bool) (now : job.process = some process)
    (free : process.statusWrite = none) (place : process.phase = .saving final) :
    JobStep config dataset records job (.advance timedOut)
      (saveCheckpoint job process final) := by
  rw [saveCheckpoint]
  split
  · exact goTo_jobStep config dataset records timedOut .failing now free
      (.fail _ (by rw [place]; rfl))
  · rename_i epoch known
    exact .opened timedOut process epoch final now free place known

theorem deleteNext_jobStep (timedOut final : Bool) (checkpoints : List Nat)
    (now : job.process = some process) (free : process.statusWrite = none)
    (place : process.phase = .deleting checkpoints final) :
    JobStep config dataset records job (.advance timedOut)
      (deleteNext job process final checkpoints) := by
  cases checkpoints with
  | nil =>
      apply goTo_jobStep config dataset records timedOut _ now free
      rw [place]
      cases final with
      | true => exact .complete
      | false => exact .repeated
  | cons old rest => exact .deleted timedOut process old rest final now free place

theorem perform_jobStep (timedOut : Bool) (now : job.process = some process)
    (free : process.statusWrite = none) :
    JobStep config dataset records job (.advance timedOut)
      (perform config dataset records job process timedOut) := by
  have update (phase : Phase Batch) (leads : process.phase.Leads phase) :
      JobStep config dataset records job (.advance timedOut)
        (updateStatus job process none phase) :=
    .updated timedOut process phase now free leads
  rw [perform]
  split <;> rename_i place
  · apply update
    rw [place]
    exact .look
  · exact resume_jobStep config dataset records timedOut now free place
  · exact trainStep_jobStep config dataset records timedOut now free place
  · exact updateHistory_jobStep config dataset records timedOut now free place
  · exact onStepEnd_jobStep config dataset records timedOut now free place
  · exact saveCheckpoint_jobStep config dataset records timedOut _ now free place
  · exact .finished timedOut process _ _ now free place
  · exact .listed timedOut process _ now free place
  · exact deleteNext_jobStep config dataset records timedOut _ _ now free place
  · apply update
    rw [place]
    exact .finish
  · exact .idle _
  · apply update
    rw [place]
    exact .leave
  · exact .idle _

theorem advance_jobStep (job : TrainingJob Batch History) (timedOut : Bool) :
    JobStep config dataset records job (.advance timedOut)
      (advance config dataset records job timedOut) := by
  rw [advance]
  split
  · exact .idle _
  · rename_i process now
    split
    · rename_i history pending
      exact .statusOpened timedOut process history now pending
    · rename_i history pending
      exact .statusClosed timedOut process history now pending
    · rename_i free
      exact perform_jobStep config dataset records timedOut now free

theorem raises_jobStep (job : TrainingJob Batch History) :
    JobStep config dataset records job .raises (raises job) := by
  rw [raises]
  split
  · exact .idle _
  · rename_i process now
    split
    · exact .idle _
    · exact .idle _
    · exact .raised process .exited now (.inr rfl)
    · exact .raised process .failing now (.inl rfl)

theorem step_jobStep (job : TrainingJob Batch History) (event : Event History) :
    JobStep config dataset records job event (step config dataset records job event) := by
  cases event with
  | start => exact .started
  | advance timedOut => exact advance_jobStep config dataset records job timedOut
  | raises => exact raises_jobStep config dataset records job
  | kill => exact .killed
  | statusWritten status => exact .statusWritten status

end Steps

end ScalarLM.Job
