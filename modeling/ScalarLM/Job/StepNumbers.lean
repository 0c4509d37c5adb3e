import ScalarLM.Job.JobSteps

/-! The step numbers in the names of the checkpoint files and those of the process. -/

namespace ScalarLM.Job

variable {Batch History : Type}

structure Numbered (job : TrainingJob Batch History) : Prop where
  ahead : ∀ process, job.process = some process → process.currentStep ≤ process.nextStep
  named : ∀ name checkpoint, (name, .complete checkpoint) ∈ job.files → checkpoint.step = name
  bounded : ∀ process, job.process = some process → process.phase.Running →
    ∀ name ∈ job.files.keys, name ≤ process.currentStep
  writing : ∀ process checkpoint final, job.process = some process →
    process.phase = .writing checkpoint final → checkpoint.step = process.currentStep

variable {config : JobConfig} {dataset : Dataset Batch} {records : HistoryRecord History}
  {job : TrainingJob Batch History} {event : Event History}

theorem Numbered.withProcess (numbered : Numbered job) {next : TrainingJob Batch History}
    {process : Process Batch History} (now : next.process = some process)
    (files : next.files = job.files) (ahead : process.currentStep ≤ process.nextStep)
    (bounded : process.phase.Running → ∀ name ∈ job.files.keys, name ≤ process.currentStep)
    (shut : process.phase.isWriting = false) : Numbered next where
  ahead := by
    intro other changed
    obtain rfl := Option.some.inj (now.symm.trans changed)
    exact ahead
  named := by
    rw [files]
    exact numbered.named
  bounded := by
    intro other changed
    obtain rfl := Option.some.inj (now.symm.trans changed)
    rw [files]
    exact bounded
  writing := by
    intro other checkpoint final changed place
    obtain rfl := Option.some.inj (now.symm.trans changed)
    rw [place] at shut
    cases shut

theorem Numbered.leads (numbered : Numbered job) {next : TrainingJob Batch History}
    {process moved : Process Batch History} (before : job.process = some process)
    (now : next.process = some moved) (files : next.files = job.files)
    (currentStep : moved.currentStep = process.currentStep)
    (nextStep : moved.nextStep = process.nextStep)
    (leads : process.phase.Leads moved.phase) : Numbered next := by
  refine numbered.withProcess now files ?_ ?_ leads.to_shut
  · rw [currentStep, nextStep]
    exact numbered.ahead process before
  · intro running
    rw [currentStep]
    exact numbered.bounded process before (leads.running running)

theorem Numbered.quiet (numbered : Numbered job) {next : TrainingJob Batch History}
    {process after : Process Batch History} (before : job.process = some process)
    (now : next.process = some after) (files : next.files = job.files)
    (phase : after.phase = process.phase) (currentStep : after.currentStep = process.currentStep)
    (nextStep : after.nextStep = process.nextStep) : Numbered next where
  ahead := by
    intro other changed
    obtain rfl := Option.some.inj (now.symm.trans changed)
    rw [currentStep, nextStep]
    exact numbered.ahead process before
  named := by
    rw [files]
    exact numbered.named
  bounded := by
    intro other changed running
    obtain rfl := Option.some.inj (now.symm.trans changed)
    rw [phase] at running
    rw [files, currentStep]
    exact numbered.bounded process before running
  writing := by
    intro other checkpoint final changed place
    obtain rfl := Option.some.inj (now.symm.trans changed)
    rw [currentStep]
    exact numbered.writing process checkpoint final before (phase.symm.trans place)

theorem Numbered.opened (numbered : Numbered job) {process : Process Batch History} {epoch : Nat}
    {final : Bool} (now : job.process = some process) (place : process.phase = .saving final) :
    Numbered { job with
      files := job.files.set process.currentStep .cut
      process := some { process with
        phase := .writing ⟨process.updates, process.currentStep, epoch⟩ final } } where
  ahead := by
    intro other changed
    obtain rfl := Option.some.inj changed
    exact numbered.ahead process now
  named := by
    intro name checkpoint member
    rcases (Dict.mem_set _ _ _ _ _).mp member with here | kept
    · cases here.2
    · exact numbered.named name checkpoint kept.2
  bounded := by
    intro other changed _ name member
    obtain rfl := Option.some.inj changed
    rcases (Dict.mem_keys_set _ _ _ _).mp member with rfl | kept
    · exact Nat.le_refl _
    · exact numbered.bounded process now (by rw [place]; trivial) name kept
  writing := by
    intro other checkpoint _ changed writing
    obtain rfl := Option.some.inj changed
    obtain ⟨rfl, _⟩ := Phase.writing.inj writing
    rfl

theorem Numbered.finished (numbered : Numbered job) {process : Process Batch History}
    {checkpoint : Checkpoint Batch} {final : Bool} (now : job.process = some process)
    (place : process.phase = .writing checkpoint final) :
    Numbered (finishWriting job process checkpoint final) where
  ahead := by
    intro other changed
    obtain rfl := Option.some.inj changed
    exact numbered.ahead process now
  named := by
    intro name other member
    rcases (Dict.mem_set _ _ _ _ _).mp member with here | kept
    · obtain rfl := FileContent.complete.inj here.2
      exact here.1.symm
    · exact numbered.named name other kept.2
  bounded := by
    intro other changed _ name member
    obtain rfl := Option.some.inj changed
    rcases (Dict.mem_keys_set _ _ _ _).mp member with rfl | kept
    · exact Nat.le_of_eq (numbered.writing process checkpoint final now place)
    · exact numbered.bounded process now (by rw [place]; trivial) name kept
  writing := by
    intro other _ _ changed writing
    obtain rfl := Option.some.inj changed
    cases writing

theorem Numbered.deleted (numbered : Numbered job) {process : Process Batch History} {old : Nat}
    {rest : List Nat} {final : Bool} (now : job.process = some process)
    (place : process.phase = .deleting (old :: rest) final) :
    Numbered { job with
      files := job.files.erase old
      process := some { process with phase := .deleting rest final } } where
  ahead := by
    intro other changed
    obtain rfl := Option.some.inj changed
    exact numbered.ahead process now
  named := by
    intro name checkpoint member
    exact numbered.named name checkpoint ((Dict.mem_erase _ _ _ _).mp member).2
  bounded := by
    intro other changed _ name member
    obtain rfl := Option.some.inj changed
    exact numbered.bounded process now (by rw [place]; trivial) name
      (mem_keys_erase job.files old name member)
  writing := by
    intro other _ _ changed writing
    obtain rfl := Option.some.inj changed
    cases writing

theorem Numbered.step (numbered : Numbered job) :
    Numbered (step config dataset records job event) := by
  have change := step_jobStep config dataset records job event
  generalize ScalarLM.Job.step config dataset records job event = next at change
  cases change with
  | started =>
      exact numbered.withProcess rfl rfl (Nat.le_refl _) (fun running => absurd running id) rfl
  | killed => exact ⟨by simp, numbered.named, by simp, by simp⟩
  | statusWritten status =>
      exact ⟨numbered.ahead, numbered.named, numbered.bounded, numbered.writing⟩
  | idle => exact numbered
  | raised process phase now stops =>
      refine numbered.withProcess rfl rfl (numbered.ahead process now) ?_ ?_
      · rcases stops with rfl | rfl <;> exact fun running => absurd running id
      · rcases stops with rfl | rfl <;> rfl
  | statusOpened timedOut process history now pending =>
      exact numbered.quiet now rfl rfl rfl rfl rfl
  | statusClosed timedOut process history now pending =>
      exact numbered.quiet now rfl rfl rfl rfl rfl
  | moved timedOut process phase shouldStop now free leads =>
      exact numbered.leads now rfl rfl rfl rfl leads
  | updated timedOut process phase now free leads =>
      exact numbered.leads now rfl rfl rfl rfl leads
  | recorded timedOut process history now free place =>
      refine numbered.withProcess rfl rfl (numbered.ahead process now) (fun _ => ?_) rfl
      exact numbered.bounded process now (by rw [place]; trivial)
  | fresh timedOut process now free place none =>
      refine numbered.withProcess rfl rfl (numbered.ahead process now) (fun _ => ?_) rfl
      rw [(getLatestCheckpoint_none _).mp none]
      intro name member
      exact absurd member List.not_mem_nil
  | resumed timedOut process name checkpoint history now free place latest known =>
      obtain ⟨member, bound⟩ := (getLatestCheckpoint_some _ _ _).mp latest
      refine numbered.withProcess rfl rfl (Nat.le_refl _) (fun _ => ?_) rfl
      dsimp only
      rw [numbered.named name checkpoint member]
      exact bound
  | trained timedOut process batch loader now free place below drawn =>
      refine numbered.withProcess rfl rfl (Nat.le_succ _) (fun _ name member => ?_) rfl
      exact Nat.le_trans (numbered.bounded process now (by rw [place]; trivial) name member)
        (numbered.ahead process now)
  | opened timedOut process epoch final now free place known => exact numbered.opened now place
  | finished timedOut process checkpoint final now free place =>
      exact numbered.finished now place
  | listed timedOut process final now free place =>
      refine numbered.withProcess rfl rfl (numbered.ahead process now) (fun _ => ?_) rfl
      exact numbered.bounded process now (by rw [place]; trivial)
  | deleted timedOut process old rest final now free place => exact numbered.deleted now place

theorem numbered_submitted : Numbered (submitted : TrainingJob Batch History) where
  ahead := by
    intro process now
    cases now
  named := by
    intro name checkpoint member
    exact absurd member (Dict.not_mem_empty _)
  bounded := by
    intro process now
    cases now
  writing := by
    intro process checkpoint final now
    cases now

end ScalarLM.Job
