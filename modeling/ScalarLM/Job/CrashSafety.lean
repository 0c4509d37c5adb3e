import ScalarLM.Job.StepNumbers

/-! Whether a job that has written a checkpoint finds a complete one at its next start. -/

namespace ScalarLM.Job

open Transition

section Safety

variable {Batch History : Type}

def StatusWrite.isOpened : StatusWrite History → Bool
  | .computed _ => false
  | .opened _ => true

def Process.closed (process : Process Batch History) : Bool :=
  !process.phase.isWriting && !process.statusWrite.any StatusWrite.isOpened

def TrainingJob.closed (job : TrainingJob Batch History) : Bool :=
  job.process.all Process.closed

def Phase.isListing : Phase Batch → Bool
  | .listing _ => true
  | _ => false

variable (config : JobConfig) (dataset : Dataset Batch) (records : HistoryRecord History)

/-- Once a checkpoint is complete, the process is not stopped while it has a file open; other
writers of the status keep its history; old checkpoints are deleted up to the latest. -/
def Allowed (job : TrainingJob Batch History) : Event History → Prop
  | .start => job.written = true → job.closed = true
  | .raises => job.written = true → job.closed = true
  | .kill => job.written = true → job.closed = true
  | .statusWritten status => job.status.history.isSome = true → status.history.isSome = true
  | .advance _ =>
      (job.process.any fun process => process.phase.isListing) = true →
        0 ≤ config.maxCheckpointsToKeep ∨
          -config.maxCheckpointsToKeep < job.files.keys.length

instance (job : TrainingJob Batch History) :
    (event : Event History) → Decidable (Allowed config job event)
  | .start => inferInstanceAs (Decidable (_ → _))
  | .raises => inferInstanceAs (Decidable (_ → _))
  | .kill => inferInstanceAs (Decidable (_ → _))
  | .statusWritten _ => inferInstanceAs (Decidable (_ → _))
  | .advance _ => inferInstanceAs (Decidable (_ → _ ∨ _))

/-- A process that looks for a checkpoint after one was completely written finds the latest
file complete and goes on from it. -/
def Resumes (job : TrainingJob Batch History) (event : Event History) : Prop :=
  ∀ timedOut process, event = .advance timedOut → job.process = some process →
    process.phase = .resuming → process.statusWrite = none → job.written = true →
      ∃ name checkpoint resumed,
        getLatestCheckpoint job.files = some (name, .complete checkpoint) ∧
        (step config dataset records job event).process = some resumed ∧
        resumed.phase = .loop ∧ resumed.currentStep = checkpoint.step ∧
        resumed.updates = checkpoint.updates

def Settled (job : TrainingJob Batch History) : Prop :=
  ∀ process, job.process = some process → process.phase.isWriting = false

structure Ordered (job : TrainingJob Batch History) : Prop where
  ahead : ∀ process, job.process = some process → process.currentStep ≤ process.nextStep
  named : ∀ name checkpoint, (name, .complete checkpoint) ∈ job.files → checkpoint.step = name
  bounded : ∀ process, job.process = some process → process.phase.Running →
    ∀ name ∈ job.files.keys, name ≤ process.currentStep
  writing : ∀ process checkpoint final, job.process = some process →
    process.phase = .writing checkpoint final → checkpoint.step = process.currentStep
  deleting : ∀ process old final, job.process = some process →
    process.phase = .deleting old final → ∀ step ∈ old, ∀ name content,
      getLatestCheckpoint job.files = some (name, content) → step < name
  latest : job.written = true → Settled job →
    ∃ name checkpoint, getLatestCheckpoint job.files = some (name, .complete checkpoint)

variable {config dataset records} {job : TrainingJob Batch History} {event : Event History}

theorem closed_settled (closed : job.closed = true) : Settled job := by
  intro process now
  rw [TrainingJob.closed, now, Option.all_some, Process.closed, Bool.and_eq_true,
    Bool.not_eq_true'] at closed
  exact closed.1

theorem settled_of {process : Process Batch History} (now : job.process = some process)
    (shut : process.phase.isWriting = false) : Settled job := by
  intro other changed
  obtain rfl := Option.some.inj (now.symm.trans changed)
  exact shut

theorem Ordered.numbered (ordered : Ordered job) : Numbered job :=
  ⟨ordered.ahead, ordered.named, ordered.bounded, ordered.writing⟩

theorem Numbered.ordered (numbered : Numbered job)
    (deleting : ∀ process old final, job.process = some process →
      process.phase = .deleting old final → ∀ step ∈ old, ∀ name content,
        getLatestCheckpoint job.files = some (name, content) → step < name)
    (latest : job.written = true → Settled job →
      ∃ name checkpoint, getLatestCheckpoint job.files = some (name, .complete checkpoint)) :
    Ordered job :=
  ⟨numbered.ahead, numbered.named, numbered.bounded, numbered.writing, deleting, latest⟩

theorem Ordered.withProcess (ordered : Ordered job)
    (settled : job.written = true → Settled job) {next : TrainingJob Batch History}
    (numbered : Numbered next) {process : Process Batch History}
    (now : next.process = some process) (files : next.files = job.files)
    (written : next.written = job.written)
    (deleting : ∀ old final, process.phase = .deleting old final → ∀ step ∈ old,
      ∀ name content, getLatestCheckpoint job.files = some (name, content) → step < name) :
    Ordered next := by
  apply numbered.ordered
  · intro other old final changed
    obtain rfl := Option.some.inj (now.symm.trans changed)
    rw [files]
    exact deleting old final
  · intro complete _
    rw [written] at complete
    rw [files]
    exact ordered.latest complete (settled complete)

theorem Ordered.quiet (ordered : Ordered job) {next : TrainingJob Batch History}
    (numbered : Numbered next) {process after : Process Batch History}
    (before : job.process = some process) (now : next.process = some after)
    (files : next.files = job.files) (written : next.written = job.written)
    (phase : after.phase = process.phase) : Ordered next := by
  apply numbered.ordered
  · intro other old final changed place
    obtain rfl := Option.some.inj (now.symm.trans changed)
    rw [files]
    exact ordered.deleting process old final before (phase.symm.trans place)
  · intro complete settled
    rw [written] at complete
    rw [files]
    refine ordered.latest complete (settled_of before ?_)
    rw [← phase]
    exact settled after now

theorem Ordered.finished (ordered : Ordered job) {process : Process Batch History}
    {checkpoint : Checkpoint Batch} {final : Bool} (now : job.process = some process)
    (place : process.phase = .writing checkpoint final) :
    Ordered (finishWriting job process checkpoint final) := by
  have bound : ∀ name ∈ job.files.keys, name ≤ checkpoint.step := by
    rw [ordered.writing process checkpoint final now place]
    exact ordered.bounded process now (by rw [place]; trivial)
  apply (ordered.numbered.finished now place).ordered
  · intro other _ _ changed deleting
    obtain rfl := Option.some.inj changed
    cases deleting
  · intro _ _
    exact ⟨_, checkpoint, getLatestCheckpoint_set job.files checkpoint.step _ bound⟩

theorem Ordered.deleted (ordered : Ordered job) {process : Process Batch History} {old : Nat}
    {rest : List Nat} {final : Bool} (now : job.process = some process)
    (place : process.phase = .deleting (old :: rest) final) :
    Ordered { job with
      files := job.files.erase old
      process := some { process with phase := .deleting rest final } } := by
  apply (ordered.numbered.deleted now place).ordered
  · intro other steps _ changed deleting step member name content latest
    obtain rfl := Option.some.inj changed
    obtain ⟨rfl, _⟩ := Phase.deleting.inj deleting
    have bound := ordered.deleting process _ final now place
    cases found : getLatestCheckpoint job.files with
    | none =>
        rw [getLatestCheckpoint_none] at found
        obtain ⟨there, _⟩ := (getLatestCheckpoint_some _ _ _).mp latest
        have key := mem_keys_erase job.files old name ((Dict.mem_keys _ _).mpr ⟨content, there⟩)
        rw [found] at key
        exact absurd key List.not_mem_nil
    | some file =>
        have kept := getLatestCheckpoint_erase job.files old file.1 file.2 found
          (bound old List.mem_cons_self file.1 file.2 found)
        rw [kept] at latest
        obtain ⟨rfl, rfl⟩ := Prod.mk.inj (Option.some.inj latest)
        exact bound step (List.mem_cons_of_mem _ member) _ _ found
  · intro complete _
    obtain ⟨name, checkpoint, found⟩ := ordered.latest complete
      (settled_of now (by rw [place]; rfl))
    refine ⟨name, checkpoint, getLatestCheckpoint_erase job.files old name _ found ?_⟩
    exact ordered.deleting process _ final now place old List.mem_cons_self name _ found

theorem Ordered.step (ordered : Ordered job) (allowed : Allowed config job event) :
    Ordered (step config dataset records job event) := by
  have change := step_jobStep config dataset records job event
  have numbered : Numbered (ScalarLM.Job.step config dataset records job event) :=
    ordered.numbered.step
  generalize ScalarLM.Job.step config dataset records job event = next at change numbered
  -- An event after which the process is in none of the phases of a file.
  have stopped (process : Process Batch History) (now : next.process = some process)
      (closed : job.written = true → job.closed = true) (files : next.files = job.files)
      (written : next.written = job.written)
      (out : ∀ old final, process.phase ≠ .deleting old final) : Ordered next :=
    ordered.withProcess (fun complete => closed_settled (closed complete)) numbered now files
      written (fun old final place => absurd place (out old final))
  -- An operation of a process that has no checkpoint file open.
  have moves (process after : Process Batch History) (before : job.process = some process)
      (shut : process.phase.isWriting = false) (now : next.process = some after)
      (files : next.files = job.files) (written : next.written = job.written)
      (out : ∀ old final, after.phase ≠ .deleting old final) : Ordered next :=
    ordered.withProcess (fun _ => settled_of before shut) numbered now files written
      (fun old final place => absurd place (out old final))
  cases change with
  | started => exact stopped _ rfl allowed rfl rfl (by simp [newProcess])
  | killed =>
      refine numbered.ordered (by simp) ?_
      intro complete _
      exact ordered.latest complete (closed_settled (allowed complete))
  | statusWritten status => exact numbered.ordered ordered.deleting ordered.latest
  | idle => exact ordered
  | raised process phase now stops =>
      refine stopped _ rfl allowed rfl rfl ?_
      rcases stops with rfl | rfl <;> simp
  | statusOpened timedOut process history now pending =>
      exact ordered.quiet numbered now rfl rfl rfl rfl
  | statusClosed timedOut process history now pending =>
      exact ordered.quiet numbered now rfl rfl rfl rfl
  | moved timedOut process phase shouldStop now free leads =>
      exact moves process _ now leads.from_shut rfl rfl rfl leads.not_deleting
  | updated timedOut process phase now free leads =>
      exact moves process _ now leads.from_shut rfl rfl rfl leads.not_deleting
  | recorded timedOut process history now free place =>
      exact moves process _ now (by rw [place]; rfl) rfl rfl rfl (by simp)
  | fresh timedOut process now free place none =>
      exact moves process _ now (by rw [place]; rfl) rfl rfl rfl (by simp)
  | resumed timedOut process name checkpoint history now free place latest known =>
      exact moves process _ now (by rw [place]; rfl) rfl rfl rfl (by simp)
  | trained timedOut process batch loader now free place below drawn =>
      exact moves process _ now (by rw [place]; rfl) rfl rfl rfl (by simp)
  | opened timedOut process epoch final now free place known =>
      apply numbered.ordered
      · intro other _ _ changed deleting
        obtain rfl := Option.some.inj changed
        cases deleting
      · intro _ settled
        cases settled _ rfl
  | finished timedOut process checkpoint final now free place =>
      exact ordered.finished now place
  | listed timedOut process final now free place =>
      refine ordered.withProcess (fun _ => settled_of now (by rw [place]; rfl)) numbered rfl rfl
        rfl ?_
      intro old _ deleting step member name content latest
      obtain ⟨rfl, _⟩ := Phase.deleting.inj deleting
      obtain ⟨there, bound⟩ := (getLatestCheckpoint_some _ _ _).mp latest
      have spares := allowed (by rw [now, Option.any_some, place]; rfl)
      exact oldCheckpoints_lt _ job.files name spares
        ((Dict.mem_keys _ _).mpr ⟨content, there⟩) bound step member
  | deleted timedOut process old rest final now free place => exact ordered.deleted now place

theorem ordered_submitted : Ordered (submitted : TrainingJob Batch History) := by
  refine numbered_submitted.ordered ?_ ?_
  · intro process old final now
    cases now
  · intro complete
    cases complete

end Safety

section History

variable {Batch History : Type}

def Phase.Recorded : Phase Batch → Prop
  | .starting => False
  | .resuming => False
  | .recording => False
  | .failing => False
  | .exited => False
  | _ => True

def HistoryComes (status : StatusFile History) : Option (StatusWrite History) → Prop
  | none => status.history.isSome = true
  | some (.computed history) => history.isSome = true
  | some (.opened history) => history.isSome = true

def IsOpened (job : TrainingJob Batch History) : Prop :=
  ∃ process history, job.process = some process ∧ process.statusWrite = some (.opened history)

/-- A complete checkpoint never stands without a history, except while it is rewritten. -/
structure Recorded (job : TrainingJob Batch History) : Prop where
  early : ∀ process, job.process = some process → process.phase.Early → process.epoch = none
  writing : ∀ process, job.process = some process → process.phase.isWriting = true →
    process.epoch.isSome = true
  kept : job.written = true → job.status.history.isSome = true ∨ IsOpened job
  comes : ∀ process, job.process = some process →
    job.written = true ∨ (process.phase.Recorded ∧ process.epoch.isSome = true) →
      HistoryComes job.status process.statusWrite

variable {config : JobConfig} {dataset : Dataset Batch} {records : HistoryRecord History}
  {job : TrainingJob Batch History} {event : Event History}

theorem Phase.Leads.recorded {phase next : Phase Batch} (leads : phase.Leads next)
    (recorded : next.Recorded) : phase.Recorded := by
  cases leads <;> trivial

theorem closed_history (closed : job.closed = true)
    (kept : job.status.history.isSome = true ∨ IsOpened job) :
    job.status.history.isSome = true := by
  rcases kept with there | opened
  · exact there
  · obtain ⟨process, history, now, pending⟩ := opened
    rw [TrainingJob.closed, now, Option.all_some, Process.closed, pending, Option.any_some,
      StatusWrite.isOpened, Bool.not_true, Bool.and_false] at closed
    cases closed

/-- A running process is the only one of its job. -/
theorem recorded_of_process {process : Process Batch History} (now : job.process = some process)
    (early : process.phase.Early → process.epoch = none)
    (writing : process.phase.isWriting = true → process.epoch.isSome = true)
    (kept : job.written = true → job.status.history.isSome = true ∨ IsOpened job)
    (comes : job.written = true ∨ (process.phase.Recorded ∧ process.epoch.isSome = true) →
      HistoryComes job.status process.statusWrite) :
    Recorded job := by
  have only {other : Process Batch History} (found : job.process = some other) :
      process = other := Option.some.inj (now.symm.trans found)
  refine ⟨?_, ?_, kept, ?_⟩
  · intro other found
    exact only found ▸ early
  · intro other found
    exact only found ▸ writing
  · intro other found
    exact only found ▸ comes

variable (job) in
theorem recorded_withProcess {next : TrainingJob Batch History}
    {process : Process Batch History} (now : next.process = some process)
    (status : next.status = job.status) (written : next.written = job.written)
    (free : process.statusWrite = none) (history : job.written = true →
      job.status.history.isSome = true)
    (comes : process.phase.Recorded → process.epoch.isSome = true →
      job.status.history.isSome = true)
    (early : process.phase.Early → process.epoch = none)
    (writing : process.phase.isWriting = true → process.epoch.isSome = true) :
    Recorded next := by
  refine recorded_of_process now early writing ?_ ?_
  · intro complete
    rw [written] at complete
    rw [status]
    exact .inl (history complete)
  · intro given
    rw [free, status, HistoryComes]
    rcases given with complete | stage
    · rw [written] at complete
      exact history complete
    · exact comes stage.1 stage.2

theorem Recorded.history (recorded : Recorded job) {process : Process Batch History}
    (now : job.process = some process) (free : process.statusWrite = none)
    (given : job.written = true ∨ (process.phase.Recorded ∧ process.epoch.isSome = true)) :
    job.status.history.isSome = true := by
  have comes := recorded.comes process now given
  rw [free] at comes
  exact comes

theorem Recorded.stopped (recorded : Recorded job) {next : TrainingJob Batch History}
    (closed : job.written = true → job.closed = true) {process : Process Batch History}
    (now : next.process = some process) (status : next.status = job.status)
    (written : next.written = job.written) (free : process.statusWrite = none)
    (early : process.phase.Early → process.epoch = none) (out : ¬ process.phase.Running) :
    Recorded next := by
  refine recorded_withProcess job now status written free
    (fun complete => closed_history (closed complete) (recorded.kept complete)) ?_ early ?_
  · intro stage
    cases place : process.phase with
    | starting | resuming | failing | exited =>
        rw [place] at stage
        exact absurd stage id
    | recording | loop | stepEnd | saving | writing | listing | deleting | completing | ended =>
        exact absurd (by rw [place]; trivial) out
  · intro writing
    cases place : process.phase with
    | writing checkpoint final => exact absurd (by rw [place]; trivial) out
    | _ =>
        rw [place] at writing
        cases writing

theorem Recorded.step (recorded : Recorded job) (allowed : Allowed config job event) :
    Recorded (step config dataset records job event) := by
  have change := step_jobStep config dataset records job event
  generalize ScalarLM.Job.step config dataset records job event = next at change
  -- An operation of the process that leaves the status file alone.
  have keeps (process : Process Batch History) (now : job.process = some process)
      (free : process.statusWrite = none) (complete : job.written = true) :
      job.status.history.isSome = true :=
    recorded.history now free (.inl complete)
  cases change with
  | started => exact recorded.stopped allowed rfl rfl rfl rfl (fun _ => rfl) id
  | killed =>
      refine ⟨by simp, by simp, ?_, by simp⟩
      intro complete
      have there : job.status.history.isSome = true :=
        closed_history (allowed complete) (recorded.kept complete)
      exact .inl there
  | statusWritten status =>
      refine ⟨recorded.early, recorded.writing, ?_, ?_⟩
      · intro complete
        exact (recorded.kept complete).imp allowed id
      · intro process now given
        have before := recorded.comes process now given
        cases pending : process.statusWrite with
        | none =>
            rw [pending] at before
            exact allowed before
        | some write =>
            rw [pending] at before
            cases write <;> exact before
  | idle => exact recorded
  | raised process phase now stops =>
      refine recorded.stopped allowed rfl rfl rfl rfl ?_ ?_
      · intro early
        rcases stops with rfl | rfl <;> exact absurd early id
      · rcases stops with rfl | rfl <;> exact id
  | statusOpened timedOut process history now pending =>
      refine recorded_of_process rfl (recorded.early process now) (recorded.writing process now)
        (fun _ => .inr ⟨_, history, rfl, rfl⟩) ?_
      intro given
      have before := recorded.comes process now given
      rw [pending] at before
      exact before
  | statusClosed timedOut process history now pending =>
      have arrives (given : job.written = true ∨
          (process.phase.Recorded ∧ process.epoch.isSome = true)) : history.isSome = true := by
        have before := recorded.comes process now given
        rw [pending] at before
        exact before
      exact recorded_of_process rfl (recorded.early process now) (recorded.writing process now)
        (fun complete => .inl (arrives (.inl complete))) arrives
  | moved timedOut process phase shouldStop now free leads =>
      refine recorded_withProcess job rfl rfl rfl free (keeps process now free) ?_ ?_ ?_
      · intro stage known
        exact recorded.history now free (.inr ⟨leads.recorded stage, known⟩)
      · intro early
        exact recorded.early process now (leads.early early)
      · intro writing
        rw [leads.to_shut] at writing
        cases writing
  | updated timedOut process phase now free leads =>
      refine recorded_of_process rfl (fun early => recorded.early process now (leads.early early))
        ?_ (fun complete => .inl (keeps process now free complete)) ?_
      · intro writing
        rw [leads.to_shut] at writing
        cases writing
      · intro given
        exact recorded.history now free
          (given.imp id fun stage => ⟨leads.recorded stage.1, stage.2⟩)
  | recorded timedOut process history now free place =>
      exact recorded_of_process rfl (fun early => absurd early id) (by simp [Phase.isWriting])
        (fun complete => .inl (keeps process now free complete)) (fun _ => rfl)
  | fresh timedOut process now free place none =>
      refine recorded_withProcess job rfl rfl rfl free (keeps process now free) ?_
        (fun early => absurd early id) (by simp [Phase.isWriting])
      intro _ known
      rw [recorded.early process now (by rw [place]; trivial)] at known
      cases known
  | resumed timedOut process name checkpoint history now free place latest known =>
      refine recorded_withProcess job rfl rfl rfl free (keeps process now free) ?_
        (fun early => absurd early id) (by simp [Phase.isWriting])
      intro _ _
      rw [known]
      rfl
  | trained timedOut process batch loader now free place below drawn =>
      exact recorded_withProcess job rfl rfl rfl free (keeps process now free)
        (fun stage => absurd stage id) (fun early => absurd early id) (by simp [Phase.isWriting])
  | opened timedOut process epoch final now free place known =>
      have some : process.epoch.isSome = true := by
        rw [known]
        rfl
      refine recorded_withProcess job rfl rfl rfl free (keeps process now free) ?_
        (fun early => absurd early id) (fun _ => some)
      exact fun _ _ => recorded.history now free (.inr ⟨by rw [place]; trivial, some⟩)
  | finished timedOut process checkpoint final now free place =>
      have some := recorded.writing process now (by rw [place]; rfl)
      have there := recorded.history now free (.inr ⟨by rw [place]; trivial, some⟩)
      refine recorded_of_process rfl (fun early => absurd early id) (by simp [Phase.isWriting])
        (fun _ => .inl there) ?_
      intro _
      dsimp only
      rw [free]
      exact there
  | listed timedOut process final now free place =>
      refine recorded_withProcess job rfl rfl rfl free (keeps process now free) ?_
        (fun early => absurd early id) (by simp [Phase.isWriting])
      exact fun _ known => recorded.history now free (.inr ⟨by rw [place]; trivial, known⟩)
  | deleted timedOut process old rest final now free place =>
      refine recorded_withProcess job rfl rfl rfl free (keeps process now free) ?_
        (fun early => absurd early id) (by simp [Phase.isWriting])
      exact fun _ known => recorded.history now free (.inr ⟨by rw [place]; trivial, known⟩)

theorem recorded_submitted : Recorded (submitted : TrainingJob Batch History) where
  early := by
    intro process now
    cases now
  writing := by
    intro process now
    cases now
  kept := by
    intro complete
    cases complete
  comes := by
    intro process now
    cases now

theorem resume_found {process : Process Batch History} {name : Nat}
    {checkpoint : Checkpoint Batch} {history : History}
    (latest : getLatestCheckpoint job.files = some (name, .complete checkpoint))
    (known : job.status.history = some history) :
    resume job process = job.run { process with
      currentStep := checkpoint.step
      epoch := some checkpoint.epoch
      nextStep := checkpoint.step
      history := history
      updates := checkpoint.updates
      phase := .loop } := by
  rw [resume, latest]
  dsimp only
  rw [known]

/-- A process that looks for a checkpoint with nothing pending resumes from the latest. -/
theorem resumes (ordered : Ordered job) (recorded : Recorded job) :
    Resumes config dataset records job event := by
  intro timedOut process isAdvance now place free complete
  obtain ⟨name, checkpoint, found⟩ := ordered.latest complete (settled_of now (by rw [place]; rfl))
  obtain ⟨history, known⟩ := Option.isSome_iff_exists.mp
    (recorded.history now free (.inl complete))
  have result : step config dataset records job event = resume job process := by
    rw [isAdvance, ScalarLM.Job.step, advance, now]
    dsimp only
    rw [free]
    dsimp only
    rw [perform, place]
  rw [result, resume_found found known]
  exact ⟨name, checkpoint, _, found, rfl, rfl, rfl, rfl⟩

variable (config dataset records) in
/-- A job that is never stopped with a file open resumes, once it has a checkpoint, at every
later start. -/
theorem crash_safe (events : List (Event History))
    (allowed : AllSteps (step config dataset records) (Allowed config) submitted events) :
    AllSteps (step config dataset records) (Resumes config dataset records) submitted events := by
  refine (allSteps_iff (step config dataset records) (fun job => Ordered job ∧ Recorded job)
    (Allowed config) (Resumes config dataset records) (fun _ _ => True) ?_ ?_ submitted events
    ⟨ordered_submitted, recorded_submitted⟩ allowed).mpr
    (allSteps_of_forall _ _ (fun _ _ => trivial) submitted events)
  · intro job event kept _
    exact iff_of_true (resumes kept.1 kept.2) trivial
  · intro job event kept now _
    exact ⟨kept.1.step now, kept.2.step now⟩

end History

section Cut

def threeSteps : JobConfig where
  maxSteps := 3
  stepsPerCheckpoint := 1
  maxCheckpointsToKeep := 3

/-- A process is killed after the checkpoint of step 1, and the next one resumes from it. -/
theorem crash_safe_between_checkpoints :
    AllSteps (step threeSteps threeBatches noHistory)
      (Resumes threeSteps threeBatches noHistory) submitted
      (.start :: advances 17 ++ .kill :: .start :: advances 4) :=
  crash_safe threeSteps threeBatches noHistory
    (.start :: advances 17 ++ .kill :: .start :: advances 4) (by decide)

/-- A process is killed while it writes the checkpoint of step 2. The checkpoint of step 1
is complete, but the next process takes the cut file for the latest one. -/
theorem cut_checkpoint_taken :
    (run (step threeSteps threeBatches noHistory) submitted
      (.start :: advances 17)).written = true ∧
    getLatestCheckpoint (run (step threeSteps threeBatches noHistory) submitted
      (.start :: advances 24 ++ .kill :: .start :: advances 3)).files = some (2, .cut) ∧
    ¬ AllSteps (step threeSteps threeBatches noHistory)
      (Resumes threeSteps threeBatches noHistory) submitted
      (.start :: advances 24 ++ .kill :: .start :: advances 3 ++ [.advance false]) := by
  have cut : getLatestCheckpoint (run (step threeSteps threeBatches noHistory) submitted
      (.start :: advances 24 ++ .kill :: .start :: advances 3)).files = some (2, .cut) := rfl
  refine ⟨rfl, cut, ?_⟩
  intro all
  obtain ⟨name, checkpoint, resumed, found, _⟩ :=
    allSteps_last (step threeSteps threeBatches noHistory) _ submitted
      (.start :: advances 24 ++ .kill :: .start :: advances 3) (.advance false) all
      false _ rfl rfl rfl rfl rfl
  rw [cut] at found
  cases found

end Cut

end ScalarLM.Job
