import ScalarLM.Job.StepNumbers
import ScalarLM.Loop.Thinning

/-! Whether the steps in the training history stay in order when a job is resumed. -/

namespace ScalarLM.Job

open Loop Transition

section Resumption

variable {Batch History : Type}

/-- A job and whether its process has loaded a checkpoint and recorded no step since. -/
structure ResumedJob (Batch History : Type) where
  job : TrainingJob Batch History
  resumed : Bool

def resumedAfter (job : TrainingJob Batch History) (resumed : Bool) : Event History → Bool
  | .start => false
  | .advance _ =>
      match job.process with
      | none => resumed
      | some process =>
          match process.statusWrite, process.phase with
          | none, .resuming => (getLatestCheckpoint job.files).isSome
          | none, .recording => false
          | _, _ => resumed
  | .raises => resumed
  | .kill => resumed
  | .statusWritten _ => resumed

variable (config : JobConfig) (dataset : Dataset Batch) (records : HistoryRecord History)

def resumedStep (state : ResumedJob Batch History) (event : Event History) :
    ResumedJob Batch History where
  job := step config dataset records state.job event
  resumed := resumedAfter state.job state.resumed event

def submittedFresh : ResumedJob Batch History := ⟨submitted, false⟩

def Records (job : TrainingJob Batch History) (process : Process Batch History) : Prop :=
  job.process = some process ∧ process.phase = .recording ∧ process.statusWrite = none

/-- Another writer of the status file writes its history back, or has read it without one. -/
def WritesBack (job : TrainingJob Batch History) : Event History → Prop
  | .statusWritten status => status.history = job.status.history ∨ status.history = none
  | _ => True

end Resumption

section Order

variable {Batch Data : Type} (config : JobConfig) (dataset : Dataset Batch)
  (data : List (HistoryEntry Data) → Nat → Data) (maxLength : Int)

def entries : HistoryRecord (List (HistoryEntry Data)) where
  empty := []
  record := recordEntry data maxLength

/-- After `update_history` the steps of the history are strictly increasing. -/
def KeepsOrder (state : ResumedJob Batch (List (HistoryEntry Data)))
    (event : Event (List (HistoryEntry Data))) : Prop :=
  ∀ timedOut process, event = .advance timedOut → Records state.job process →
    ∃ after, (step config dataset (entries data maxLength) state.job event).process = some after ∧
      Increasing after.history

/-- The first step recorded after a checkpoint was loaded takes the place of the last entry. -/
def Displaces (state : ResumedJob Batch (List (HistoryEntry Data)))
    (event : Event (List (HistoryEntry Data))) : Prop :=
  state.resumed = true → ∀ timedOut process, event = .advance timedOut →
    Records state.job process → Displaced maxLength process.history process.currentStep

/-- A history that a process may load with the given files: it is thinned and in order, and
no checkpoint is ahead of it. -/
structure Reloads (files : Dict Nat (FileContent Batch)) (history : List (HistoryEntry Data)) :
    Prop where
  increasing : Increasing history
  short : (history.length : Int) ≤ maxLength
  reaches : ∀ name checkpoint, (name, .complete checkpoint) ∈ files →
    Reaches history checkpoint.step

variable {History : Type}

def Process.recordsNext (process : Process Batch History) : Nat :=
  match process.phase with
  | .recording => process.currentStep
  | _ => process.nextStep

def StatusWrite.history : StatusWrite History → Option History
  | .computed history => history
  | .opened history => history

def comingHistory (status : StatusFile History) :
    Option (StatusWrite History) → Option History
  | none => status.history
  | some write => write.history

/-- The history of a process in the loop. Until it has recorded its first step, a resumed
process has a history that goes as far as that step at least. -/
structure Follows (resumed : Bool) (process : Process Batch (List (HistoryEntry Data))) :
    Prop where
  increasing : Increasing process.history
  short : (process.history.length : Int) ≤ maxLength
  ahead : resumed = false → ∀ entry ∈ process.history, entry.step < process.recordsNext
  behind : resumed = true → Reaches process.history process.recordsNext

structure InOrder (job : TrainingJob Batch (List (HistoryEntry Data))) (resumed : Bool) :
    Prop where
  numbered : Numbered job
  status : ∀ history, job.status.history = some history → Reloads maxLength job.files history
  coming : ∀ process history, job.process = some process →
    comingHistory job.status process.statusWrite = some history →
      Reloads maxLength job.files history
  early : ∀ process, job.process = some process → process.phase.Early →
    process.history = [] ∧ process.epoch = none
  writing : ∀ process, job.process = some process → process.phase.isWriting = true →
    process.epoch.isSome = true
  recording : ∀ process, job.process = some process → process.phase = .recording →
    process.currentStep < process.nextStep
  own : ∀ process, job.process = some process → process.phase.Running →
    Follows maxLength resumed process
  current : ∀ process history, job.process = some process → process.phase.Running →
    process.phase ≠ .recording → process.epoch.isSome = true →
      comingHistory job.status process.statusWrite = some history →
        Reaches history process.currentStep

variable {config dataset data maxLength}
  {job : TrainingJob Batch (List (HistoryEntry Data))} {resumed : Bool}
  {event : Event (List (HistoryEntry Data))}

theorem Phase.Leads.not_recording {phase next : Phase Batch} (leads : phase.Leads next) :
    next ≠ .recording := by
  cases leads <;> simp

theorem Phase.Leads.from_recording {phase next : Phase Batch} (leads : phase.Leads next)
    (running : next.Running) : phase ≠ .recording := by
  cases leads with
  | fail phase shut => exact absurd running id
  | _ => simp

theorem recordsNext_of (process : Process Batch History) (place : process.phase ≠ .recording) :
    process.recordsNext = process.nextStep := by
  rw [Process.recordsNext]
  split
  · rename_i here
    exact absurd here place
  · rfl

theorem Follows.congr {process next : Process Batch (List (HistoryEntry Data))}
    (follows : Follows maxLength resumed process) (history : next.history = process.history)
    (recordsNext : next.recordsNext = process.recordsNext) : Follows maxLength resumed next where
  increasing := by
    rw [history]
    exact follows.increasing
  short := by
    rw [history]
    exact follows.short
  ahead := by
    rw [history, recordsNext]
    exact follows.ahead
  behind := by
    rw [history, recordsNext]
    exact follows.behind

theorem Reloads.fewer {files kept : Dict Nat (FileContent Batch)}
    {history : List (HistoryEntry Data)} (reloads : Reloads maxLength files history)
    (fewer : ∀ name checkpoint, (name, .complete checkpoint) ∈ kept →
      (name, .complete checkpoint) ∈ files) : Reloads maxLength kept history where
  increasing := reloads.increasing
  short := reloads.short
  reaches name checkpoint member := reloads.reaches name checkpoint (fewer name checkpoint member)

theorem InOrder.withProcess (inOrder : InOrder maxLength job resumed)
    {next : TrainingJob Batch (List (HistoryEntry Data))} {now : Bool} (numbered : Numbered next)
    {process : Process Batch (List (HistoryEntry Data))} (changed : next.process = some process)
    (status : next.status = job.status)
    (files : ∀ name checkpoint, (name, .complete checkpoint) ∈ next.files →
      (name, .complete checkpoint) ∈ job.files)
    (free : process.statusWrite = none)
    (early : process.phase.Early → process.history = [] ∧ process.epoch = none)
    (writing : process.phase.isWriting = true → process.epoch.isSome = true)
    (recording : process.phase = .recording → process.currentStep < process.nextStep)
    (own : process.phase.Running → Follows maxLength now process)
    (current : process.phase.Running → process.phase ≠ .recording → process.epoch.isSome = true →
      ∀ history, job.status.history = some history → Reaches history process.currentStep) :
    InOrder maxLength next now where
  numbered := numbered
  status := by
    intro history known
    rw [status] at known
    exact (inOrder.status history known).fewer files
  coming := by
    intro other history same known
    obtain rfl := Option.some.inj (changed.symm.trans same)
    rw [free, status] at known
    exact (inOrder.status history known).fewer files
  early := by
    intro other same
    obtain rfl := Option.some.inj (changed.symm.trans same)
    exact early
  writing := by
    intro other same
    obtain rfl := Option.some.inj (changed.symm.trans same)
    exact writing
  recording := by
    intro other same
    obtain rfl := Option.some.inj (changed.symm.trans same)
    exact recording
  own := by
    intro other same
    obtain rfl := Option.some.inj (changed.symm.trans same)
    exact own
  current := by
    intro other history same running place known coming
    obtain rfl := Option.some.inj (changed.symm.trans same)
    rw [free, status] at coming
    exact current running place known history coming

theorem InOrder.quiet (inOrder : InOrder maxLength job resumed)
    {next : TrainingJob Batch (List (HistoryEntry Data))} (numbered : Numbered next)
    {process after : Process Batch (List (HistoryEntry Data))}
    (before : job.process = some process) (changed : next.process = some after)
    (files : next.files = job.files)
    (status : ∀ history, next.status.history = some history →
      comingHistory job.status process.statusWrite = some history)
    (coming : comingHistory next.status after.statusWrite =
      comingHistory job.status process.statusWrite)
    (same : after = { process with statusWrite := after.statusWrite }) :
    InOrder maxLength next resumed where
  numbered := numbered
  status := by
    intro history known
    rw [files]
    exact inOrder.coming process history before (status history known)
  coming := by
    intro other history this known
    obtain rfl := Option.some.inj (changed.symm.trans this)
    rw [coming] at known
    rw [files]
    exact inOrder.coming process history before known
  early := by
    intro other this
    obtain rfl := Option.some.inj (changed.symm.trans this)
    rw [same]
    exact inOrder.early process before
  writing := by
    intro other this
    obtain rfl := Option.some.inj (changed.symm.trans this)
    rw [same]
    exact inOrder.writing process before
  recording := by
    intro other this
    obtain rfl := Option.some.inj (changed.symm.trans this)
    rw [same]
    exact inOrder.recording process before
  own := by
    intro other this
    obtain rfl := Option.some.inj (changed.symm.trans this)
    rw [same]
    intro running
    exact (inOrder.own process before running).congr rfl rfl
  current := by
    intro other history this
    obtain rfl := Option.some.inj (changed.symm.trans this)
    rw [coming, same]
    exact inOrder.current process history before

theorem InOrder.toPhase (inOrder : InOrder maxLength job resumed)
    {next : TrainingJob Batch (List (HistoryEntry Data))} (numbered : Numbered next)
    {process : Process Batch (List (HistoryEntry Data))} {phase : Phase Batch} {shouldStop : Bool}
    (before : job.process = some process) (free : process.statusWrite = none)
    (changed : next.process = some { process with phase := phase, shouldStop := shouldStop })
    (status : next.status = job.status)
    (files : ∀ name checkpoint, (name, .complete checkpoint) ∈ next.files →
      (name, .complete checkpoint) ∈ job.files)
    (early : phase.Early → process.phase.Early)
    (writing : phase.isWriting = true → process.epoch.isSome = true) (out : phase ≠ .recording)
    (running : phase.Running → process.phase.Running ∧ process.phase ≠ .recording) :
    InOrder maxLength next resumed := by
  refine inOrder.withProcess numbered changed status files free ?_ writing ?_ ?_ ?_
  · intro soon
    exact inOrder.early process before (early soon)
  · intro recording
    exact absurd recording out
  · intro runs
    refine (inOrder.own process before (running runs).1).congr rfl ?_
    rw [recordsNext_of _ out, recordsNext_of _ (running runs).2]
  · intro runs _ known history there
    refine inOrder.current process history before (running runs).1 (running runs).2 known ?_
    rw [free]
    exact there

theorem InOrder.moved (inOrder : InOrder maxLength job resumed)
    {next : TrainingJob Batch (List (HistoryEntry Data))} (numbered : Numbered next)
    {process : Process Batch (List (HistoryEntry Data))} {phase : Phase Batch} {shouldStop : Bool}
    (before : job.process = some process) (free : process.statusWrite = none)
    (changed : next.process = some { process with phase := phase, shouldStop := shouldStop })
    (status : next.status = job.status) (files : next.files = job.files)
    (leads : process.phase.Leads phase) : InOrder maxLength next resumed := by
  refine inOrder.toPhase numbered before free changed status ?_ leads.early ?_
    leads.not_recording (fun runs => ⟨leads.running runs, leads.from_recording runs⟩)
  · rw [files]
    exact fun _ _ => id
  · intro writing
    rw [leads.to_shut] at writing
    cases writing

theorem InOrder.finished (inOrder : InOrder maxLength job resumed)
    {process : Process Batch (List (HistoryEntry Data))} {checkpoint : Checkpoint Batch}
    {final : Bool} (numbered : Numbered (finishWriting job process checkpoint final))
    (now : job.process = some process) (free : process.statusWrite = none)
    (place : process.phase = .writing checkpoint final) :
    InOrder maxLength (finishWriting job process checkpoint final) resumed := by
  have running : process.phase.Running := by rw [place]; trivial
  have still : process.phase ≠ .recording := by rw [place]; simp
  have reaches (history : List (HistoryEntry Data)) (known : job.status.history = some history) :
      Reaches history process.currentStep := by
    refine inOrder.current process history now running still ?_ ?_
    · exact inOrder.writing process now (by rw [place]; rfl)
    · rw [free]
      exact known
  have reloads (history : List (HistoryEntry Data)) (known : job.status.history = some history) :
      Reloads maxLength (finishWriting job process checkpoint final).files history := by
    have before := inOrder.status history known
    refine ⟨before.increasing, before.short, ?_⟩
    intro name other member
    rcases (Dict.mem_set _ _ _ _ _).mp member with here | kept
    · obtain rfl := FileContent.complete.inj here.2
      rw [inOrder.numbered.writing process other final now place]
      exact reaches history known
    · exact before.reaches name other kept.2
  refine ⟨numbered, reloads, ?_, ?_, ?_, ?_, ?_, ?_⟩
  · intro other history same known
    obtain rfl := Option.some.inj same
    dsimp only at known
    rw [free] at known
    exact reloads history known
  · intro other same early
    obtain rfl := Option.some.inj same
    exact absurd early id
  · intro other same writing
    obtain rfl := Option.some.inj same
    cases writing
  · intro other same recording
    obtain rfl := Option.some.inj same
    cases recording
  · intro other same _
    obtain rfl := Option.some.inj same
    refine (inOrder.own process now running).congr rfl ?_
    rw [recordsNext_of _ still]
    rfl
  · intro other history same _ _ _ known
    obtain rfl := Option.some.inj same
    dsimp only at known
    rw [free] at known
    exact reaches history known

theorem InOrder.updated (inOrder : InOrder maxLength job resumed)
    {process : Process Batch (List (HistoryEntry Data))} {phase : Phase Batch}
    (numbered : Numbered (updateStatus job process none phase))
    (before : job.process = some process) (free : process.statusWrite = none)
    (leads : process.phase.Leads phase) :
    InOrder maxLength (updateStatus job process none phase) resumed := by
  have moved : InOrder maxLength (job.goTo process phase) resumed :=
    inOrder.moved (inOrder.numbered.leads before rfl rfl rfl rfl leads) before free rfl rfl rfl
      leads
  refine moved.quiet numbered rfl rfl rfl ?_ ?_ rfl
  · rw [free]
    exact fun _ => id
  · rw [free]
    rfl

theorem step_records (timedOut : Bool) {process : Process Batch (List (HistoryEntry Data))}
    (records : Records job process) :
    step config dataset (entries data maxLength) job (.advance timedOut) =
      updateHistory (entries data maxLength) job process := by
  rw [step, advance, records.1]
  dsimp only
  rw [records.2.2]
  dsimp only
  rw [perform, records.2.1]

theorem resumedAfter_records (timedOut : Bool)
    {process : Process Batch (List (HistoryEntry Data))} (records : Records job process) :
    resumedAfter job resumed (.advance timedOut) = false := by
  rw [resumedAfter, records.1]
  dsimp only
  rw [records.2.2, records.2.1]

variable (config dataset data) in
theorem step_recorded (atLeast : 2 ≤ maxLength) (inOrder : InOrder maxLength job resumed)
    (timedOut : Bool) {process : Process Batch (List (HistoryEntry Data))}
    (records : Records job process) :
    ∃ history front entry,
      recordEntry data maxLength process.history process.currentStep = some history ∧
        history = front ++ [entry] ∧ entry.step = process.currentStep ∧
        front.Sublist process.history ∧ (history.length : Int) ≤ maxLength ∧
        step config dataset (entries data maxLength) job (.advance timedOut) =
          updateStatus job { process with history := history } (some history) .stepEnd := by
  have follows := inOrder.own process records.1 (by rw [records.2.1]; trivial)
  obtain ⟨kept, recorded, sub, fits⟩ :=
    recordEntry_kept data process.history process.currentStep atLeast follows.short
  refine ⟨_, kept, _, recorded, rfl, rfl, sub, ?_, ?_⟩
  · rw [List.length_append, List.length_singleton]
    omega
  · have made : (entries data maxLength).record process.history process.currentStep =
        some (kept ++ [⟨process.currentStep, data process.history process.currentStep⟩]) := recorded
    rw [step_records timedOut records, updateHistory, made]

theorem InOrder.recorded (atLeast : 2 ≤ maxLength) (inOrder : InOrder maxLength job resumed)
    (timedOut : Bool) {process : Process Batch (List (HistoryEntry Data))}
    (records : Records job process)
    (good : KeepsOrder config dataset data maxLength ⟨job, resumed⟩ (.advance timedOut)) :
    InOrder maxLength (step config dataset (entries data maxLength) job (.advance timedOut))
      false := by
  have numbered : Numbered (step config dataset (entries data maxLength) job
    (.advance timedOut)) := inOrder.numbered.step
  obtain ⟨history, front, entry, recorded, rfl, last, sub, short, after⟩ :=
    step_recorded config dataset data atLeast inOrder timedOut
      records
  obtain ⟨next, now, increasing⟩ := good timedOut process rfl records
  rw [after] at now numbered ⊢
  obtain rfl := Option.some.inj now
  have bounded := inOrder.numbered.bounded process records.1 (by rw [records.2.1]; trivial)
  have reloads : Reloads maxLength job.files (front ++ [entry]) := by
    refine ⟨increasing, short, ?_⟩
    intro name checkpoint member
    refine ⟨front, entry, rfl, ?_⟩
    rw [last, inOrder.numbered.named name checkpoint member]
    exact bounded name ((Dict.mem_keys _ _).mpr ⟨_, member⟩)
  refine ⟨numbered, inOrder.status, ?_, ?_, ?_, ?_, ?_, ?_⟩
  · intro other coming same known
    obtain rfl := Option.some.inj same
    obtain rfl := Option.some.inj known
    exact reloads
  · intro other same early
    obtain rfl := Option.some.inj same
    exact absurd early id
  · intro other same writing
    obtain rfl := Option.some.inj same
    cases writing
  · intro other same recording
    obtain rfl := Option.some.inj same
    cases recording
  · intro other same _
    obtain rfl := Option.some.inj same
    refine ⟨increasing, short, ?_, by simp⟩
    intro _ earlier member
    have next := inOrder.recording process records.1 records.2.1
    rcases List.mem_append.mp member with inFront | here
    · have before := (List.pairwise_append.mp increasing).2.2 earlier inFront entry
        List.mem_cons_self
      exact Nat.lt_trans before (last ▸ next)
    · rw [List.mem_singleton.mp here]
      exact last ▸ next
  · intro other coming same _ _ _ known
    obtain rfl := Option.some.inj same
    obtain rfl := Option.some.inj known
    exact ⟨front, entry, rfl, Nat.le_of_eq last.symm⟩

theorem InOrder.resumes (atLeast : 2 ≤ maxLength) (inOrder : InOrder maxLength job resumed)
    (timedOut : Bool)
    {process : Process Batch (List (HistoryEntry Data))} (now : job.process = some process)
    (free : process.statusWrite = none) (place : process.phase = .resuming) :
    InOrder maxLength (step config dataset (entries data maxLength) job (.advance timedOut))
      (resumedAfter job resumed (.advance timedOut)) := by
  have numbered : Numbered (step config dataset (entries data maxLength) job
    (.advance timedOut)) := inOrder.numbered.step
  have performs : step config dataset (entries data maxLength) job (.advance timedOut) =
      resume job process := by
    rw [step, advance, now]
    dsimp only
    rw [free]
    dsimp only
    rw [perform, place]
  have flag : resumedAfter job resumed (.advance timedOut) =
      (getLatestCheckpoint job.files).isSome := by
    rw [resumedAfter, now]
    dsimp only
    rw [free, place]
  have early := inOrder.early process now (by rw [place]; trivial)
  have fails : InOrder maxLength (job.goTo process .failing)
      (getLatestCheckpoint job.files).isSome :=
    inOrder.withProcess
      (inOrder.numbered.leads now rfl rfl rfl rfl (.fail _ (by rw [place]; rfl))) rfl rfl
      (fun _ _ => id) free (fun out => absurd out id) (by simp [Phase.isWriting]) (by simp)
      (fun out => absurd out id) (fun out => absurd out id)
  rw [performs] at numbered ⊢
  rw [flag]
  rw [resume] at numbered ⊢
  split at numbered
  · rename_i none
    rw [none]
    refine inOrder.withProcess numbered rfl rfl (fun _ _ => id) free (fun out => absurd out id)
      (by simp [Phase.isWriting]) (by simp) ?_ ?_
    · intro _
      refine ⟨?_, ?_, ?_, by simp⟩
      · rw [early.1]
        exact .nil
      · rw [early.1, List.length_nil]
        omega
      · intro _ entry member
        rw [early.1] at member
        cases member
    · intro _ _ known
      rw [early.2] at known
      cases known
  · exact fails
  · rename_i name checkpoint latest
    split at numbered
    · exact fails
    · rename_i history known
      obtain ⟨member, _⟩ := (getLatestCheckpoint_some _ _ _).mp latest
      have reloads := inOrder.status history known
      have reaches := reloads.reaches name checkpoint member
      rw [latest]
      refine inOrder.withProcess numbered rfl rfl (fun _ _ => id) free (fun out => absurd out id)
        (by simp [Phase.isWriting]) (by simp) ?_ ?_
      · intro _
        exact ⟨reloads.increasing, reloads.short, by simp, fun _ => reaches⟩
      · intro _ _ _ other there
        obtain rfl := Option.some.inj (known.symm.trans there)
        exact reaches

theorem InOrder.advances (inOrder : InOrder maxLength job resumed) (timedOut : Bool)
    {process : Process Batch (List (HistoryEntry Data))} (before : job.process = some process)
    (quiet : process.statusWrite = none → process.phase ≠ .resuming ∧ process.phase ≠ .recording) :
    InOrder maxLength (step config dataset (entries data maxLength) job (.advance timedOut))
      resumed := by
  have change := step_jobStep config dataset (entries data maxLength) job (.advance timedOut)
  have numbered : Numbered (step config dataset (entries data maxLength) job
    (.advance timedOut)) := inOrder.numbered.step
  generalize step config dataset (entries data maxLength) job (.advance timedOut) = next
    at change numbered
  have unique {other : Process Batch (List (HistoryEntry Data))} (now : job.process = some other) :
      other = process := Option.some.inj (now.symm.trans before)
  cases change with
  | idle => exact inOrder
  | statusOpened _ other history now pending =>
      obtain rfl := unique now
      refine inOrder.quiet numbered now rfl rfl (by simp [StatusFile.history]) ?_ rfl
      rw [pending]
      rfl
  | statusClosed _ other history now pending =>
      obtain rfl := unique now
      refine inOrder.quiet numbered now rfl rfl ?_ ?_ rfl
      · rw [pending]
        exact fun _ => id
      · rw [pending]
        rfl
  | moved _ other phase shouldStop now free leads =>
      exact inOrder.moved numbered now free rfl rfl rfl leads
  | updated _ other phase now free leads => exact inOrder.updated numbered now free leads
  | recorded _ other history now free place =>
      obtain rfl := unique now
      exact absurd place (quiet free).2
  | fresh _ other now free place none =>
      obtain rfl := unique now
      exact absurd place (quiet free).1
  | resumed _ other name checkpoint history now free place latest known =>
      obtain rfl := unique now
      exact absurd place (quiet free).1
  | trained _ other batch loader now free place below drawn =>
      refine inOrder.withProcess numbered rfl rfl (fun _ _ => id) free (fun out => absurd out id)
        (by simp [Phase.isWriting]) (fun _ => Nat.lt_succ_self _) ?_
        (fun _ still => absurd rfl still)
      intro _
      have follows := inOrder.own other now (by rw [place]; trivial)
      refine follows.congr rfl ?_
      rw [recordsNext_of other (by rw [place]; simp)]
      rfl
  | opened _ other epoch final now free place known =>
      refine inOrder.toPhase numbered now free rfl rfl ?_ (fun out => absurd out id)
        (fun _ => by rw [known]; rfl) (by simp)
        (fun _ => ⟨by rw [place]; trivial, by rw [place]; simp⟩)
      intro name checkpoint member
      rcases (Dict.mem_set _ _ _ _ _).mp member with here | kept
      · cases here.2
      · exact kept.2
  | finished _ other checkpoint final now free place =>
      exact inOrder.finished numbered now free place
  | listed _ other final now free place =>
      exact inOrder.toPhase numbered now free rfl rfl (fun _ _ => id) (fun out => absurd out id)
        (by simp [Phase.isWriting]) (by simp)
        (fun _ => ⟨by rw [place]; trivial, by rw [place]; simp⟩)
  | deleted _ other old rest final now free place =>
      exact inOrder.toPhase numbered now free rfl rfl
        (fun name checkpoint member => ((Dict.mem_erase _ _ _ _).mp member).2)
        (fun out => absurd out id) (by simp [Phase.isWriting]) (by simp)
        (fun _ => ⟨by rw [place]; trivial, by rw [place]; simp⟩)

theorem InOrder.stopped (inOrder : InOrder maxLength job resumed)
    {next : TrainingJob Batch (List (HistoryEntry Data))} {now : Bool} (numbered : Numbered next)
    {process : Process Batch (List (HistoryEntry Data))} (changed : next.process = some process)
    (status : next.status = job.status) (files : next.files = job.files)
    (free : process.statusWrite = none)
    (early : process.phase.Early → process.history = [] ∧ process.epoch = none)
    (out : ¬ process.phase.Running) : InOrder maxLength next now := by
  refine inOrder.withProcess numbered changed status ?_ free early ?_ ?_
    (fun running => absurd running out) (fun running => absurd running out)
  · rw [files]
    exact fun _ _ => id
  · intro writing
    cases place : process.phase with
    | writing checkpoint final => exact absurd (by rw [place]; trivial) out
    | _ =>
        rw [place] at writing
        cases writing
  · intro place
    exact absurd (by rw [place]; trivial) out

theorem InOrder.step (atLeast : 2 ≤ maxLength) (inOrder : InOrder maxLength job resumed)
    (back : WritesBack job event)
    (good : KeepsOrder config dataset data maxLength ⟨job, resumed⟩ event) :
    InOrder maxLength (step config dataset (entries data maxLength) job event)
      (resumedAfter job resumed event) := by
  have change := step_jobStep config dataset (entries data maxLength) job event
  have numbered : Numbered (ScalarLM.Job.step config dataset (entries data maxLength) job event) :=
    inOrder.numbered.step
  cases event with
  | start =>
      exact inOrder.stopped numbered rfl rfl rfl rfl (fun _ => ⟨rfl, rfl⟩) id
  | kill =>
      exact ⟨numbered, inOrder.status, by simp [ScalarLM.Job.step], by simp [ScalarLM.Job.step],
        by simp [ScalarLM.Job.step], by simp [ScalarLM.Job.step], by simp [ScalarLM.Job.step],
        by simp [ScalarLM.Job.step]⟩
  | raises =>
      rw [resumedAfter]
      generalize ScalarLM.Job.step config dataset (entries data maxLength) job .raises = next
        at change numbered
      cases change with
      | idle => exact inOrder
      | raised process phase now stops =>
          refine inOrder.stopped numbered rfl rfl rfl rfl ?_ ?_
          · rcases stops with rfl | rfl <;> exact fun early => absurd early id
          · rcases stops with rfl | rfl <;> exact id
  | statusWritten status =>
      rw [resumedAfter]
      have known (history : List (HistoryEntry Data)) (there : status.history = some history) :
          job.status.history = some history := by
        rcases back with same | lost
        · rw [← same]
          exact there
        · rw [lost] at there
          cases there
      have coming (write : Option (StatusWrite (List (HistoryEntry Data))))
          (history : List (HistoryEntry Data)) (there : comingHistory status write = some history) :
          comingHistory job.status write = some history := by
        cases write with
        | none => exact known history there
        | some write => exact there
      exact ⟨numbered, fun history there => inOrder.status history (known history there),
        fun process history now there =>
          inOrder.coming process history now (coming _ history there),
        inOrder.early, inOrder.writing, inOrder.recording, inOrder.own,
        fun process history now running place started there =>
          inOrder.current process history now running place started (coming _ history there)⟩
  | advance timedOut =>
      cases now : job.process with
      | none =>
          have same : ScalarLM.Job.step config dataset (entries data maxLength) job
              (.advance timedOut) = job := by
            rw [ScalarLM.Job.step, advance, now]
          rw [same, resumedAfter, now]
          exact inOrder
      | some process =>
          by_cases records : process.phase = .recording ∧ process.statusWrite = none
          · rw [resumedAfter_records timedOut ⟨now, records⟩]
            exact inOrder.recorded atLeast timedOut ⟨now, records⟩ good
          · by_cases resumes : process.phase = .resuming ∧ process.statusWrite = none
            · exact inOrder.resumes atLeast timedOut now resumes.2 resumes.1
            · have flag : resumedAfter job resumed (.advance timedOut) = resumed := by
                rw [resumedAfter, now]
                dsimp only
                split
                · rename_i free place
                  exact absurd ⟨place, free⟩ resumes
                · rename_i free place
                  exact absurd ⟨place, free⟩ records
                · rfl
              rw [flag]
              exact inOrder.advances timedOut now
                (fun free => ⟨fun place => resumes ⟨place, free⟩,
                  fun place => records ⟨place, free⟩⟩)

theorem inOrder_submitted :
    InOrder maxLength (submitted : TrainingJob Batch (List (HistoryEntry Data))) false where
  numbered := numbered_submitted
  status := by
    intro history known
    cases known
  coming := by
    intro process history now
    cases now
  early := by
    intro process now
    cases now
  writing := by
    intro process now
    cases now
  recording := by
    intro process now
    cases now
  own := by
    intro process now
    cases now
  current := by
    intro process history now
    cases now

/-- A step is recorded in order unless it is the first after a checkpoint was loaded. -/
theorem keepsOrder_iff (atLeast : 2 ≤ maxLength) (inOrder : InOrder maxLength job resumed) :
    KeepsOrder config dataset data maxLength ⟨job, resumed⟩ event ↔
      Displaces maxLength ⟨job, resumed⟩ event := by
  constructor
  · intro good behind timedOut process advances records
    subst advances
    have follows := inOrder.own process records.1 (by rw [records.2.1]; trivial)
    have reaches := follows.behind behind
    rw [Process.recordsNext, records.2.1] at reaches
    obtain ⟨history, _, _, recorded, _, _, _, _, after⟩ :=
      step_recorded config dataset data atLeast inOrder timedOut
        records
    obtain ⟨next, now, increasing⟩ := good timedOut process rfl records
    rw [after] at now
    obtain rfl := Option.some.inj now
    exact (recordEntry_increasing_iff data atLeast follows.short follows.increasing reaches
      recorded).mp increasing
  · intro displaces timedOut process advances records
    subst advances
    have follows := inOrder.own process records.1 (by rw [records.2.1]; trivial)
    obtain ⟨history, front, entry, recorded, shape, last, sub, _, after⟩ :=
      step_recorded config dataset data atLeast inOrder timedOut
        records
    refine ⟨_, by rw [after]; rfl, ?_⟩
    cases resumed with
    | true =>
        have reaches := follows.behind rfl
        rw [Process.recordsNext, records.2.1] at reaches
        exact (recordEntry_increasing_iff data atLeast follows.short follows.increasing reaches
          recorded).mpr (displaces rfl timedOut process rfl records)
    | false =>
        have ahead := follows.ahead rfl
        rw [Process.recordsNext, records.2.1] at ahead
        dsimp only
        rw [shape, increasing_snoc_iff _ (follows.increasing.sublist sub)]
        intro earlier member
        rw [last]
        exact ahead earlier (sub.subset member)

variable (config dataset data) in
/-- The history of a job stays in order over all its restarts exactly when each process that
loaded a checkpoint records its first step in the place of the last entry. -/
theorem history_ordered_iff (atLeast : 2 ≤ maxLength)
    (events : List (Event (List (HistoryEntry Data))))
    (others : AllSteps (resumedStep config dataset (entries data maxLength))
      (fun state event => WritesBack state.job event) submittedFresh events) :
    AllSteps (resumedStep config dataset (entries data maxLength))
        (KeepsOrder config dataset data maxLength) submittedFresh events ↔
      AllSteps (resumedStep config dataset (entries data maxLength))
        (Displaces maxLength) submittedFresh events := by
  refine allSteps_iff _ (fun state => InOrder maxLength state.job state.resumed) _ _ _ ?_ ?_
    submittedFresh events inOrder_submitted others
  · intro state event inOrder _
    exact keepsOrder_iff atLeast inOrder
  · intro state event inOrder back good
    exact inOrder.step atLeast back good

end Order

section Repeated

def lossless : List (HistoryEntry Unit) → Nat → Unit := fun _ _ => ()

def everyStep : JobConfig where
  maxSteps := 4
  stepsPerCheckpoint := 1
  maxCheckpointsToKeep := 3

/-- The process records the steps 0 and 1, writes the checkpoint of step 1 and is killed. The
server writes the status again, and the next process resumes from the checkpoint and records
step 1 once more. -/
def recordsAgain : List (Event (List (HistoryEntry Unit))) :=
  .start :: List.replicate 16 (.advance false) ++
    [.kill, .statusWritten (.readable (some [⟨0, ()⟩, ⟨1, ()⟩])), .start] ++
      List.replicate 6 (.advance false)

/-- A history of two entries is full, so that the repeated step takes the place of the last. -/
theorem history_ordered_full :
    AllSteps (resumedStep everyStep threeBatches (entries lossless 2))
        (KeepsOrder everyStep threeBatches lossless 2) submittedFresh recordsAgain ∧
      (run (resumedStep everyStep threeBatches (entries lossless 2)) submittedFresh
        recordsAgain).job.process.map (fun process => process.history.map HistoryEntry.step) =
          some [0, 1] := by
  have others : AllSteps (resumedStep everyStep threeBatches (entries lossless 2))
      (fun state event => WritesBack state.job event) submittedFresh recordsAgain := by
    repeat' first | exact trivial | exact .inl rfl | apply And.intro
  refine ⟨(history_ordered_iff everyStep threeBatches lossless (by decide) _ others).mpr ?_, rfl⟩
  have fresh : ∀ {state : ResumedJob Char (List (HistoryEntry Unit))}
      {event : Event (List (HistoryEntry Unit))}, state.resumed = false →
        Displaces 2 state event :=
    fun first resumed => absurd (first.symm.trans resumed) (by decide)
  -- before the checkpoint is loaded there is nothing to show, and then two steps are left
  repeat' first | exact fresh rfl | exact trivial | apply And.intro
  · rintro _ _ process _ ⟨now, place, _⟩
    cases now
    cases place
  · rintro _ _ process _ ⟨now, _⟩
    cases now
    decide

/-- The process records the steps 0 and 1, writes the checkpoint of step 1 and is killed; the
next one resumes from it and is about to record its first step. -/
def resumesAtOne : List (Event (List (HistoryEntry Unit))) :=
  .start :: List.replicate 16 (.advance false) ++
    .kill :: .start :: List.replicate 5 (.advance false)

/-- The step of the checkpoint is in the history already and is recorded a second time. -/
theorem history_not_ordered :
    ¬ ∀ (maxLength : Int) (events : List (Event (List (HistoryEntry Unit)))), 2 ≤ maxLength →
      AllSteps (resumedStep everyStep threeBatches (entries lossless maxLength))
        (KeepsOrder everyStep threeBatches lossless maxLength) submittedFresh events := by
  intro claimed
  have keeps := allSteps_last (resumedStep everyStep threeBatches (entries lossless 10)) _
    submittedFresh resumesAtOne (.advance false)
    (claimed 10 (resumesAtOne ++ [.advance false]) (by decide))
  obtain ⟨after, now, increasing⟩ := keeps false _ rfl ⟨rfl, rfl, rfl⟩
  have twice : after.history.map HistoryEntry.step = [0, 1, 1] := by
    obtain rfl := Option.some.inj now
    rfl
  have strict : (after.history.map HistoryEntry.step).Pairwise (· < ·) :=
    List.pairwise_map.mpr increasing
  rw [twice] at strict
  exact absurd strict (by decide)

end Repeated

end ScalarLM.Job
