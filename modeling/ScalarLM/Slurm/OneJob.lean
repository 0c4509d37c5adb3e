import ScalarLM.Slurm.JobLaunch
import Mathlib.Data.List.Nodup

/-! At most one Slurm job of a job directory is pending or running at any time. -/

namespace ScalarLM.Slurm

open Transition

/-- A configuration that a restart of the directory's job would submit for another directory is
not the directory's own. -/
def ownConfig (directory : BaseName) : Option ConfigFile → Bool
  | some (.readable trainArgs) => decide (trainArgs.jobDirectory = directory)
  | _ => true

def State.Own (state : State) (directory : BaseName) : Prop :=
  ownConfig directory (state.config directory) = true

/-- The archive takes no `status.json` away, and no directory with a `status.json` gets the
`config.yaml` of another job. -/
def Archive.harmless (archive : Archive) (state : State) : Bool :=
  (archive.status.all fun entry => entry.2.isSome) &&
    (archive.status.map Prod.fst ++ archive.config.map Prod.fst).all fun directory =>
      !(archive.statusAfter state directory).isSome ||
        ownConfig directory (archive.configAfter state directory)

/-- The condition on a step: an upload unpacks nothing that has a job of one directory submitted
for another, or twice. -/
def harmless (state : State) : Event → Bool
  | .upload _ archive => archive.harmless state
  | _ => true

/-- The directories that a restart still visits: those with a job are among the names that
`squeue` gave. Jobs may end meanwhile, and none may begin. -/
structure Covered (state : State) (slurmJobNames : List (List Char)) (paths : List BaseName) :
    Prop where
  once : paths.Nodup
  shown : ∀ name ∈ state.names, name ∈ paths → name.chars ∈ slurmJobNames

/-- What the rest of a restart relies on while a job of one directory is submitted. -/
def CallerSafe (state : State) (directory : BaseName) : Caller → Prop
  | .launch => True
  | .restart slurmJobNames paths => directory ∉ paths ∧ Covered state slurmJobNames paths

structure Clear (state : State) (trainArgs : TrainArgs) (caller : Caller) : Prop where
  absent : trainArgs.jobDirectory ∉ state.names
  own : state.Own trainArgs.jobDirectory
  caller : CallerSafe state trainArgs.jobDirectory caller

/-- The job is submitted, and its id is being recorded. -/
structure Recorded (state : State) (trainArgs : TrainArgs) (caller : Caller) : Prop where
  own : state.Own trainArgs.jobDirectory
  caller : CallerSafe state trainArgs.jobDirectory caller

def NextSafe (state : State) (trainArgs : TrainArgs) (caller : Caller) : Next → Prop
  | .sbatch => Clear state trainArgs caller
  | .jobId _ => Recorded state trainArgs caller
  | .finish => Recorded state trainArgs caller

def TaskSafe (state : State) : Task → Prop
  | .idle => True
  | .waitForSlurm _ => True
  | .jobAlreadyExists _ => True
  | .makeTrainingDirectory trainArgs => state.status trainArgs.jobDirectory = none
  | .dumpConfig trainArgs => state.status trainArgs.jobDirectory = none
  | .getSlurmJobs => True
  | .listdir slurmJobNames => ∀ name ∈ state.names, name.chars ∈ slurmJobNames
  | .getRunningJobs slurmJobNames paths => Covered state slurmJobNames paths
  | .restartJob job slurmJobNames paths =>
      state.status job ≠ none ∧ job ∉ state.names ∧
        CallerSafe state job (.restart slurmJobNames paths)
  | .createRunCommand trainArgs caller => Clear state trainArgs caller
  | .readStatus trainArgs _ next caller => NextSafe state trainArgs caller next
  | .openStatus trainArgs _ next caller => NextSafe state trainArgs caller next
  | .dumpStatus trainArgs _ next caller => NextSafe state trainArgs caller next
  | .runSbatch trainArgs caller =>
      state.status trainArgs.jobDirectory ≠ none ∧ Clear state trainArgs caller
  | .getJobId trainArgs _ caller => Recorded state trainArgs caller
  | .getExistingJobInfo _ => True

/-- What holds of the files and of Slurm at any time. -/
structure Kept (state : State) : Prop where
  alone : state.names.Nodup
  started : ∀ name ∈ state.names, state.status name ≠ none
  configured : ∀ directory, state.status directory ≠ none → state.Own directory
  listed : state.directories.Nodup

structure Safe (state : State) : Prop where
  kept : Kept state
  task : TaskSafe state state.task

section Surroundings

variable {state later : State}

theorem covered_of_fewer {slurmJobNames : List (List Char)} {paths : List BaseName}
    (fewer : later.names ⊆ state.names) (covered : Covered state slurmJobNames paths) :
    Covered later slurmJobNames paths where
  once := covered.once
  shown := fun name member => covered.shown name (fewer member)

theorem callerSafe_of_fewer {directory : BaseName} {caller : Caller}
    (fewer : later.names ⊆ state.names) (safe : CallerSafe state directory caller) :
    CallerSafe later directory caller := by
  cases caller with
  | launch => trivial
  | restart slurmJobNames paths => exact ⟨safe.1, covered_of_fewer fewer safe.2⟩

theorem clear_of_fewer {trainArgs : TrainArgs} {caller : Caller}
    (fewer : later.names ⊆ state.names) (config : later.config = state.config)
    (clear : Clear state trainArgs caller) : Clear later trainArgs caller where
  absent := fun member => clear.absent (fewer member)
  own := by rw [State.Own, config]; exact clear.own
  caller := callerSafe_of_fewer fewer clear.caller

theorem recorded_of_fewer {trainArgs : TrainArgs} {caller : Caller}
    (fewer : later.names ⊆ state.names) (config : later.config = state.config)
    (recorded : Recorded state trainArgs caller) : Recorded later trainArgs caller where
  own := by rw [State.Own, config]; exact recorded.own
  caller := callerSafe_of_fewer fewer recorded.caller

theorem nextSafe_of_fewer {trainArgs : TrainArgs} {caller : Caller} {next : Next}
    (fewer : later.names ⊆ state.names) (config : later.config = state.config)
    (safe : NextSafe state trainArgs caller next) : NextSafe later trainArgs caller next := by
  cases next with
  | sbatch => exact clear_of_fewer fewer config safe
  | jobId stdout => exact recorded_of_fewer fewer config safe
  | finish => exact recorded_of_fewer fewer config safe

theorem taskSafe_of_fewer {task : Task} (fewer : later.names ⊆ state.names)
    (config : later.config = state.config)
    (status : ∀ directory, later.status directory = none ↔ state.status directory = none)
    (safe : TaskSafe state task) : TaskSafe later task := by
  cases task with
  | idle | waitForSlurm | jobAlreadyExists | getSlurmJobs | getExistingJobInfo => trivial
  | makeTrainingDirectory trainArgs => exact (status _).mpr safe
  | dumpConfig trainArgs => exact (status _).mpr safe
  | listdir slurmJobNames => exact fun name member => safe name (fewer member)
  | getRunningJobs slurmJobNames paths => exact covered_of_fewer fewer safe
  | restartJob job slurmJobNames paths =>
      obtain ⟨present, absent, caller⟩ := safe
      exact ⟨fun gone => present ((status _).mp gone), fun member => absent (fewer member),
        callerSafe_of_fewer fewer caller⟩
  | createRunCommand trainArgs caller => exact clear_of_fewer fewer config safe
  | readStatus trainArgs jobStatus next caller => exact nextSafe_of_fewer fewer config safe
  | openStatus trainArgs jobStatus next caller => exact nextSafe_of_fewer fewer config safe
  | dumpStatus trainArgs jobStatus next caller => exact nextSafe_of_fewer fewer config safe
  | runSbatch trainArgs caller =>
      exact ⟨fun gone => safe.1 ((status _).mp gone), clear_of_fewer fewer config safe.2⟩
  | getJobId trainArgs stdout caller => exact recorded_of_fewer fewer config safe

theorem kept_withSlurm (slurm : List SlurmJob)
    (fewer : (slurm.map SlurmJob.name).Sublist state.names) (kept : Kept state) :
    Kept (state.withSlurm slurm) where
  alone := kept.alone.sublist fewer
  started := fun name member => kept.started name (fewer.subset member)
  configured := kept.configured
  listed := kept.listed

theorem safe_withSlurm (slurm : List SlurmJob)
    (fewer : (slurm.map SlurmJob.name).Sublist state.names) (safe : Safe state) :
    Safe (state.withSlurm slurm) where
  kept := kept_withSlurm slurm fewer safe.kept
  task := taskSafe_of_fewer fewer.subset rfl (fun _ => Iff.rfl) safe.task

theorem withStatus_eq_none_iff (directory other : BaseName) (file : StatusFile)
    (present : state.status directory ≠ none) :
    (state.withStatus directory file).status other = none ↔ state.status other = none := by
  by_cases same : other = directory
  · simp [State.withStatus, same, present]
  · simp [State.withStatus, same]

theorem kept_withStatus (directory : BaseName) (file : StatusFile)
    (own : state.Own directory) (kept : Kept state) :
    Kept (state.withStatus directory file) where
  alone := kept.alone
  started := by
    intro name member
    by_cases same : name = directory
    · simp [State.withStatus, same]
    · simpa [State.withStatus, same] using kept.started name member
  configured := by
    intro other present
    by_cases same : other = directory
    · rw [same]
      exact own
    · exact kept.configured other (by simpa [State.withStatus, same] using present)
  listed := kept.listed

theorem safe_statusWritten (directory : BaseName) (file : StatusFile)
    (present : state.status directory ≠ none) (safe : Safe state) :
    Safe (state.withStatus directory file) where
  kept := kept_withStatus directory file (safe.kept.configured directory present) safe.kept
  task := by
    refine taskSafe_of_fewer ?_ ?_ ?_ safe.task
    · exact List.Subset.refl _
    · rfl
    · exact fun other => withStatus_eq_none_iff directory other file present

theorem kept_withDirectory (directory : BaseName) (kept : Kept state) :
    Kept (state.withDirectory directory) := by
  unfold State.withDirectory
  split
  · exact kept
  · exact ⟨kept.alone, kept.started, kept.configured, List.nodup_cons.mpr ⟨‹_›, kept.listed⟩⟩

theorem withDirectory_rest (state : State) (directory : BaseName) :
    (state.withDirectory directory).names = state.names ∧
      (state.withDirectory directory).config = state.config ∧
      (state.withDirectory directory).status = state.status ∧
      (state.withDirectory directory).task = state.task := by
  unfold State.withDirectory
  split
  · exact ⟨rfl, rfl, rfl, rfl⟩
  · exact ⟨rfl, rfl, rfl, rfl⟩

theorem withDirectories_rest (state : State) (directories : List BaseName) :
    (state.withDirectories directories).names = state.names ∧
      (state.withDirectories directories).config = state.config ∧
      (state.withDirectories directories).status = state.status ∧
      (state.withDirectories directories).task = state.task := by
  induction directories generalizing state with
  | nil => exact ⟨rfl, rfl, rfl, rfl⟩
  | cons directory rest ih =>
      obtain ⟨names, config, status, task⟩ := withDirectory_rest state directory
      obtain ⟨names', config', status', task'⟩ := ih (state.withDirectory directory)
      exact ⟨names'.trans names, config'.trans config, status'.trans status, task'.trans task⟩

theorem kept_withDirectories (directories : List BaseName) (kept : Kept state) :
    Kept (state.withDirectories directories) := by
  induction directories generalizing state with
  | nil => exact kept
  | cons directory rest ih => exact ih (kept_withDirectory directory kept)

variable {archive : Archive} {directory : BaseName}

theorem lookup_mem {β : Type} {entries : List (BaseName × β)} {value : β}
    (found : entries.lookup directory = some value) : (directory, value) ∈ entries := by
  induction entries with
  | nil => cases found
  | cons entry rest ih =>
      obtain ⟨key, held⟩ := entry
      rw [List.lookup_cons] at found
      split at found
      · rename_i same
        obtain rfl := Option.some.inj found
        rw [eq_of_beq same]
        exact List.mem_cons_self
      · exact List.mem_cons_of_mem _ (ih found)

theorem statusAfter_present (calm : archive.harmless state = true)
    (present : state.status directory ≠ none) : archive.statusAfter state directory ≠ none := by
  rw [Archive.statusAfter]
  cases found : archive.status.lookup directory with
  | none => exact present
  | some file =>
      have there := List.all_eq_true.mp (Bool.and_eq_true_iff.mp calm).1 _ (lookup_mem found)
      exact Option.isSome_iff_ne_none.mp there

/-- What has a `status.json` after a harmless archive has no other job's `config.yaml`. -/
theorem configAfter_own (calm : archive.harmless state = true) (kept : Kept state)
    (present : archive.statusAfter state directory ≠ none) :
    ownConfig directory (archive.configAfter state directory) = true := by
  by_cases touched : directory ∈ archive.status.map Prod.fst ++ archive.config.map Prod.fst
  · have own := List.all_eq_true.mp (Bool.and_eq_true_iff.mp calm).2 directory touched
    rw [Option.isSome_iff_ne_none.mpr present] at own
    exact own
  · rw [List.mem_append, not_or] at touched
    have status : archive.status.lookup directory = none := by
      cases found : archive.status.lookup directory with
      | none => rfl
      | some file => exact absurd (List.mem_map_of_mem (lookup_mem found)) touched.1
    have config : archive.config.lookup directory = none := by
      cases found : archive.config.lookup directory with
      | none => rfl
      | some file => exact absurd (List.mem_map_of_mem (lookup_mem found)) touched.2
    rw [Archive.statusAfter, status] at present
    rw [Archive.configAfter, config]
    exact kept.configured directory present

theorem kept_extractall (calm : archive.harmless state = true) (kept : Kept state) :
    Kept (state.extractall archive) := by
  have made := kept_withDirectories archive.directories kept
  have names := (withDirectories_rest state archive.directories).1
  refine ⟨made.alone, ?_, ?_, made.listed⟩
  · intro name member
    refine statusAfter_present calm (kept.started name ?_)
    rw [← names]
    exact member
  · exact fun directory present => configAfter_own calm kept present

theorem harmless_withDirectory (state : State) (directory : BaseName) (archive : Archive) :
    archive.harmless (state.withDirectory directory) = archive.harmless state := by
  obtain ⟨_, config, status, _⟩ := withDirectory_rest state directory
  simp only [Archive.harmless, Archive.statusAfter, Archive.configAfter, config, status]

theorem safe_upload (directory : BaseName) (archive : Archive)
    (calm : archive.harmless state = true) (safe : Safe state) :
    Safe (step state (.upload directory archive)) := by
  rw [step]
  split
  · rename_i idle
    rw [← harmless_withDirectory state directory] at calm
    have task : ((state.withDirectory directory).extractall archive).task = .idle := by
      rw [← idle, ← (withDirectory_rest state directory).2.2.2]
      exact (withDirectories_rest _ archive.directories).2.2.2
    refine ⟨kept_extractall calm (kept_withDirectory directory safe.kept), ?_⟩
    rw [task]
    trivial
  · exact safe

end Surroundings

section EventLoop

variable {state : State}

theorem safe_takes (task : Task) (kept : Kept state) (safe : TaskSafe state task) :
    Safe (state.takes task) where
  kept := ⟨kept.alone, kept.started, kept.configured, kept.listed⟩
  task := by
    refine taskSafe_of_fewer ?_ ?_ ?_ safe
    · exact List.Subset.refl _
    · rfl
    · exact fun _ => Iff.rfl

theorem safe_begins (task : Task) (begun : TaskSafe state task) (safe : Safe state) :
    Safe (state.begins task) := by
  unfold State.begins
  split
  · exact safe_takes task safe.kept begun
  · exact safe

theorem kept_withConfig (directory : BaseName) (file : ConfigFile)
    (unstarted : state.status directory = none) (kept : Kept state) :
    Kept (state.withConfig directory file) where
  alone := kept.alone
  started := kept.started
  configured := by
    intro other present
    have distinct : other ≠ directory := by
      intro same
      rw [same] at present
      exact present unstarted
    simpa [State.Own, State.withConfig, distinct] using kept.configured other present
  listed := kept.listed

theorem safe_configWritten (trainArgs : TrainArgs) (file : ConfigFile)
    (running : state.task = .dumpConfig trainArgs)
    (unstarted : state.status trainArgs.jobDirectory = none) (safe : Safe state) :
    Safe (state.withConfig trainArgs.jobDirectory file) := by
  refine ⟨kept_withConfig _ file unstarted safe.kept, ?_⟩
  change TaskSafe _ state.task
  rw [running]
  exact unstarted

theorem safe_makeTrainingDirectory (trainArgs : TrainArgs)
    (unstarted : state.status trainArgs.jobDirectory = none) (safe : Safe state) :
    Safe (state.makeTrainingDirectory trainArgs) := by
  have made := kept_withDirectory trainArgs.jobDirectory safe.kept
  obtain ⟨_, _, status, _⟩ := withDirectory_rest state trainArgs.jobDirectory
  rw [← status] at unstarted
  exact safe_takes _ (kept_withConfig _ .unreadable unstarted made) unstarted

/-- Without `status.json` there is no job, so that the launch may submit one. -/
theorem absent_of_unstarted (directory : BaseName) (unstarted : state.status directory = none)
    (kept : Kept state) : directory ∉ state.names :=
  fun member => kept.started directory member unstarted

theorem safe_configDumped (trainArgs : TrainArgs)
    (unstarted : state.status trainArgs.jobDirectory = none) (safe : Safe state) :
    Safe ((state.withConfig trainArgs.jobDirectory (.readable trainArgs)).takes
      (.createRunCommand trainArgs .launch)) := by
  have absent := absent_of_unstarted _ unstarted safe.kept
  refine safe_takes _ (kept_withConfig _ _ unstarted safe.kept) ⟨absent, ?_, trivial⟩
  simp [State.Own, State.withConfig, ownConfig]

theorem safe_getSlurmJobs (safe : Safe state) :
    Safe (state.takes (.listdir (getSlurmJobs (squeueOutput state.slurm)))) := by
  refine safe_takes _ safe.kept ?_
  intro name member
  obtain ⟨job, listed, rfl⟩ := List.mem_map.mp member
  rw [getSlurmJobs_squeueOutput]
  exact List.mem_map.mpr ⟨job, listed, rfl⟩

theorem safe_listdir (slurmJobNames : List (List Char)) (paths : List BaseName)
    (entries : paths.Perm state.directories)
    (shown : ∀ name ∈ state.names, name.chars ∈ slurmJobNames) (safe : Safe state) :
    Safe (state.takes (.getRunningJobs slurmJobNames paths)) :=
  safe_takes _ safe.kept
    ⟨entries.nodup_iff.mpr safe.kept.listed, fun name member _ => shown name member⟩

theorem covered_tail {slurmJobNames : List (List Char)} {path : BaseName} {paths : List BaseName}
    (covered : Covered state slurmJobNames (path :: paths)) :
    Covered state slurmJobNames paths where
  once := (List.nodup_cons.mp covered.once).2
  shown := fun name member later => covered.shown name member (List.mem_cons_of_mem _ later)

theorem safe_getRunningJobs (slurmJobNames : List (List Char)) (paths : List BaseName)
    (covered : Covered state slurmJobNames paths) (safe : Safe state) :
    Safe (state.getRunningJobs slurmJobNames paths) := by
  have ended := safe_takes .idle safe.kept trivial
  cases paths with
  | nil => exact ended
  | cons path paths =>
      have next : Safe (state.takes (.getRunningJobs slurmJobNames paths)) :=
        safe_takes _ safe.kept (covered_tail covered)
      rw [State.getRunningJobs]
      split
      · exact next
      · exact ended
      · rename_i jobStatus present
        split
        · split
          · exact next
          · rename_i unshown
            refine safe_takes _ safe.kept ⟨?_, ?_, ?_, covered_tail covered⟩
            · rw [present]
              exact Option.some_ne_none _
            · intro member
              have shown := covered.shown path member List.mem_cons_self
              exact unshown (List.contains_iff_mem.mpr shown)
            · exact (List.nodup_cons.mp covered.once).1
        · exact next

/-- The configuration of a directory with a status is not another one's. -/
theorem safe_restartJob (job : BaseName) (slurmJobNames : List (List Char))
    (paths : List BaseName) (present : state.status job ≠ none) (absent : job ∉ state.names)
    (caller : CallerSafe state job (.restart slurmJobNames paths)) (safe : Safe state) :
    Safe (state.restartJob job slurmJobNames paths) := by
  have own := safe.kept.configured job present
  unfold State.restartJob
  split
  · rename_i trainArgs found
    have here : trainArgs.jobDirectory = job := by
      rw [State.Own, found] at own
      exact of_decide_eq_true own
    subst here
    exact safe_takes _ safe.kept ⟨absent, own, caller⟩
  · exact safe_takes .idle safe.kept trivial

theorem safe_readStatus (trainArgs : TrainArgs) (jobStatus : JobStatus) (next : Next)
    (caller : Caller) (held : NextSafe state trainArgs caller next) (safe : Safe state) :
    Safe (state.readStatus trainArgs jobStatus next caller) := by
  unfold State.readStatus
  split
  · exact safe_takes _ safe.kept held
  · exact safe_takes _ safe.kept held
  · exact safe_takes .idle safe.kept trivial

theorem own_of_nextSafe {trainArgs : TrainArgs} {caller : Caller} {next : Next}
    (held : NextSafe state trainArgs caller next) : state.Own trainArgs.jobDirectory := by
  cases next with
  | sbatch => exact held.own
  | jobId stdout => exact held.own
  | finish => exact held.own

theorem kept_write (trainArgs : TrainArgs) (next : Next) (caller : Caller) (file : StatusFile)
    (held : NextSafe state trainArgs caller next) (kept : Kept state) :
    Kept (state.withStatus trainArgs.jobDirectory file) :=
  kept_withStatus _ file (own_of_nextSafe held) kept

theorem nextSafe_withStatus {trainArgs : TrainArgs} {caller : Caller} {next : Next}
    (directory : BaseName) (file : StatusFile) (held : NextSafe state trainArgs caller next) :
    NextSafe (state.withStatus directory file) trainArgs caller next := by
  refine nextSafe_of_fewer ?_ ?_ held
  · exact List.Subset.refl _
  · rfl

theorem taskSafe_next {trainArgs : TrainArgs} {caller : Caller} (next : Next)
    (present : state.status trainArgs.jobDirectory ≠ none)
    (held : NextSafe state trainArgs caller next) :
    TaskSafe state (next.task trainArgs caller) := by
  cases next with
  | sbatch => exact ⟨present, held⟩
  | jobId stdout => exact held
  | finish =>
      cases caller with
      | launch => trivial
      | restart slurmJobNames paths => exact held.caller.2

theorem safe_openStatus (trainArgs : TrainArgs) (jobStatus : JobStatus) (next : Next)
    (caller : Caller) (held : NextSafe state trainArgs caller next) (safe : Safe state) :
    Safe ((state.withStatus trainArgs.jobDirectory .unreadable).takes
      (.dumpStatus trainArgs jobStatus next caller)) :=
  safe_takes _ (kept_write trainArgs next caller _ held safe.kept) (nextSafe_withStatus _ _ held)

theorem safe_dumpStatus (trainArgs : TrainArgs) (jobStatus : JobStatus) (next : Next)
    (caller : Caller) (held : NextSafe state trainArgs caller next) (safe : Safe state) :
    Safe ((state.withStatus trainArgs.jobDirectory (.readable jobStatus)).takes
      (next.task trainArgs caller)) := by
  refine safe_takes _ (kept_write trainArgs next caller _ held safe.kept)
    (taskSafe_next next ?_ (nextSafe_withStatus _ _ held))
  simp [State.withStatus]

theorem submit_names (trainArgs : TrainArgs) (caller : Caller) (id : JobId)
    (partition : Partition) (columns : Columns) :
    (state.submit trainArgs caller id partition columns).names =
      state.names ++ [trainArgs.jobDirectory] := by
  rw [State.names, State.submit, State.takes, State.withSlurm, List.map_append]
  rfl

/-- The one step that adds a job. The directory has none yet, and a restart that goes on
does not come to it again. -/
theorem safe_submit (trainArgs : TrainArgs) (caller : Caller) (id : JobId)
    (partition : Partition) (columns : Columns)
    (present : state.status trainArgs.jobDirectory ≠ none)
    (clear : Clear state trainArgs caller) (safe : Safe state) :
    Safe (state.submit trainArgs caller id partition columns) := by
  have names : (state.withSlurm (state.slurm ++
      [(createSlurmRunCommand trainArgs).job id partition columns])).names =
        state.names ++ [trainArgs.jobDirectory] :=
    submit_names trainArgs caller id partition columns
  have kept : Kept (state.withSlurm
      (state.slurm ++ [(createSlurmRunCommand trainArgs).job id partition columns])) := by
    refine ⟨?_, ?_, safe.kept.configured, safe.kept.listed⟩
    · rw [names, List.nodup_append_comm]
      exact List.nodup_cons.mpr ⟨clear.absent, safe.kept.alone⟩
    · intro name member
      rw [names, List.mem_append, List.mem_singleton] at member
      rcases member with earlier | rfl
      · exact safe.kept.started name earlier
      · exact present
  refine safe_takes _ kept ⟨clear.own, ?_⟩
  cases caller with
  | launch => trivial
  | restart slurmJobNames paths =>
      obtain ⟨passed, once, shown⟩ := clear.caller
      refine ⟨passed, once, ?_⟩
      intro name member later
      rw [names, List.mem_append, List.mem_singleton] at member
      rcases member with earlier | rfl
      · exact shown name earlier later
      · exact absurd later passed

theorem recorded_of_clear {trainArgs : TrainArgs} {caller : Caller}
    (clear : Clear state trainArgs caller) : Recorded state trainArgs caller :=
  ⟨clear.own, clear.caller⟩

theorem safe_getJobId (trainArgs : TrainArgs) (stdout : List Char) (caller : Caller)
    (recorded : Recorded state trainArgs caller) (safe : Safe state) :
    Safe (state.getJobId trainArgs stdout caller) := by
  unfold State.getJobId
  split
  · exact safe_takes _ safe.kept recorded
  · exact safe_takes .idle safe.kept trivial

theorem safe_proceed (answer : Answer) (safe : Safe state) : Safe (state.proceed answer) := by
  have held := safe.task
  have ended := safe_takes .idle safe.kept trivial
  unfold State.proceed
  generalize running : state.task = task at held
  cases task with
  | idle => cases answer with
    | raised => exact ended
    | _ => exact safe
  | waitForSlurm trainArgs => cases answer with
    | done => exact safe_takes _ safe.kept trivial
    | raised => exact ended
    | _ => exact safe
  | jobAlreadyExists trainArgs => cases answer with
    | done =>
        dsimp only
        split
        · exact safe_takes _ safe.kept trivial
        · rename_i unstarted
          exact safe_takes _ safe.kept (Option.not_isSome_iff_eq_none.mp unstarted)
    | raised => exact ended
    | _ => exact safe
  | makeTrainingDirectory trainArgs => cases answer with
    | done => exact safe_makeTrainingDirectory trainArgs held safe
    | raised => exact ended
    | _ => exact safe
  | dumpConfig trainArgs => cases answer with
    | written file => exact safe_configWritten trainArgs file running held safe
    | done => exact safe_configDumped trainArgs held safe
    | raised => exact ended
    | _ => exact safe
  | getSlurmJobs => cases answer with
    | done => exact safe_getSlurmJobs safe
    | raised => exact ended
    | _ => exact safe
  | listdir slurmJobNames => cases answer with
    | entries paths =>
        dsimp only
        split
        · exact safe_listdir slurmJobNames paths ‹_› held safe
        · exact safe
    | raised => exact ended
    | _ => exact safe
  | getRunningJobs slurmJobNames paths => cases answer with
    | done => exact safe_getRunningJobs slurmJobNames paths held safe
    | raised => exact ended
    | _ => exact safe
  | restartJob job slurmJobNames paths => cases answer with
    | done => exact safe_restartJob job slurmJobNames paths held.1 held.2.1 held.2.2 safe
    | raised => exact ended
    | _ => exact safe
  | createRunCommand trainArgs caller => cases answer with
    | now time => exact safe_takes _ safe.kept held
    | raised => exact ended
    | _ => exact safe
  | readStatus trainArgs jobStatus next caller => cases answer with
    | done => exact safe_readStatus trainArgs jobStatus next caller held safe
    | raised => exact ended
    | _ => exact safe
  | openStatus trainArgs jobStatus next caller => cases answer with
    | done => exact safe_openStatus trainArgs jobStatus next caller held safe
    | raised => exact ended
    | _ => exact safe
  | dumpStatus trainArgs jobStatus next caller => cases answer with
    | done => exact safe_dumpStatus trainArgs jobStatus next caller held safe
    | raised => exact ended
    | _ => exact safe
  | runSbatch trainArgs caller => cases answer with
    | submitted id partition columns =>
        exact safe_submit trainArgs caller id partition columns held.1 held.2 safe
    | refused stdout stderr => exact safe_takes _ safe.kept (recorded_of_clear held.2)
    | raised => exact ended
    | _ => exact safe
  | getJobId trainArgs stdout caller => cases answer with
    | done => exact safe_getJobId trainArgs stdout caller held safe
    | raised => exact ended
    | _ => exact safe
  | getExistingJobInfo trainArgs => cases answer with
    | done => exact ended
    | raised => exact ended
    | _ => exact safe

theorem jobChanges_names (index : Nat) (jobState : JobState) (columns : Columns) :
    (state.slurm.modify index (SlurmJob.changed jobState columns)).map SlurmJob.name =
      state.names := by
  refine List.ext_getElem (by simp [State.names]) fun position _ _ => ?_
  simp only [List.getElem_map, List.getElem_modify, State.names]
  split
  · rfl
  · rfl

theorem safe_jobChanges (index : Nat) (jobState : JobState) (columns : Columns)
    (safe : Safe state) :
    Safe (state.withSlurm (state.slurm.modify index (SlurmJob.changed jobState columns))) := by
  refine safe_withSlurm _ ?_ safe
  rw [jobChanges_names]

theorem present_of_written (directory : BaseName) (safe : Safe state)
    (there : (state.status directory).isSome ∨ directory ∈ state.names) :
    state.status directory ≠ none := by
  rcases there with some | listed
  · exact Option.isSome_iff_ne_none.mp some
  · exact safe.kept.started directory listed

theorem safe_step (event : Event) (calm : harmless state event = true) (safe : Safe state) :
    Safe (step state event) := by
  cases event with
  | upload directory archive => exact safe_upload directory archive calm safe
  | launch trainArgs => exact safe_begins _ trivial safe
  | restart => exact safe_begins _ trivial safe
  | proceeds answer => exact safe_proceed answer safe
  | statusWritten directory file =>
      rw [step]
      split
      · rename_i there
        exact safe_statusWritten directory file (present_of_written directory safe there) safe
      · exact safe
  | jobChanges index jobState columns => exact safe_jobChanges index jobState columns safe
  | jobEnds index => exact safe_withSlurm _ ((state.slurm.eraseIdx_sublist index).map _) safe

end EventLoop

theorem safe_initial : Safe State.initial where
  kept := ⟨List.nodup_nil, by simp [State.names, State.initial], by simp [State.initial],
    List.nodup_nil⟩
  task := trivial

/-- A pending or running job; a completing one is listed, but has ended. -/
def JobState.live : JobState → Bool
  | .pending => true
  | .running => true
  | .completing => false

def State.liveJobs (state : State) (directory : BaseName) : List SlurmJob :=
  state.slurm.filter fun job => decide (job.name = directory) && job.state.live

def AtMostOneLive (state : State) : Prop :=
  ∀ directory, (state.liveJobs directory).length ≤ 1

theorem atMostOneLive_of_nodup (state : State) (alone : state.names.Nodup) :
    AtMostOneLive state := by
  intro directory
  calc
    (state.liveJobs directory).length
      ≤ state.slurm.countP fun job => decide (job.name = directory) := by
        rw [State.liveJobs, ← List.countP_eq_length_filter]
        refine List.countP_mono_left fun job _ live => ?_
        exact (Bool.and_eq_true_iff.mp live).1
    _ = state.names.count directory := by
        rw [State.names, List.count_eq_countP, List.countP_map]
        rfl
    _ ≤ 1 := List.nodup_iff_count_le_one.mp alone directory

def sbatchAnswers (id : JobId) (partition : Partition) (columns : Columns) : List Answer :=
  [.now 0, .done, .done, .done, .submitted id partition columns, .done, .done, .done, .done]

def launchEvents (trainArgs : TrainArgs) (sbatch : List Answer) : List Event :=
  let answers : List Answer := List.replicate 4 .done ++ sbatch ++ [.done]
  .launch trainArgs :: answers.map .proceeds

def restartEvents (directories : List BaseName) (answers : List Answer) : List Event :=
  .restart :: (Answer.done :: .entries directories :: answers).map .proceeds

section Runs

def directoryA : BaseName := ⟨['a'], List.cons_ne_nil _ _, List.forall_mem_singleton.mpr rfl⟩

def directoryB : BaseName := ⟨['b'], List.cons_ne_nil _ _, List.forall_mem_singleton.mpr rfl⟩

def columnsU : Columns := ⟨['u'], by decide⟩

def sbatch7 : List Answer :=
  sbatchAnswers ⟨['7'], List.cons_ne_nil _ _, List.forall_mem_singleton.mpr rfl, by decide⟩
    ⟨['p'], List.cons_ne_nil _ _, List.forall_mem_singleton.mpr rfl⟩ columnsU

def launchedTwice : List Event :=
  .upload directoryA ⟨[], [], []⟩ :: launchEvents ⟨directoryA⟩ sbatch7 ++ .jobEnds 0 ::
    restartEvents [directoryA] ([.done, .done] ++ sbatch7)

example :
    let last := run step .initial launchedTwice
    last.names = [directoryA] ∧ (last.liveJobs directoryA).length = 1 := by
  decide +kernel

/-- An archive with the `config.yaml` of the job in `a`, and a status for which a restart
submits what the configuration names. -/
def archiveB : Archive :=
  ⟨[], [(directoryB, some (.readable ⟨.queued, none, none, none⟩))],
    [(directoryB, some (.readable ⟨directoryA⟩))]⟩

def uploadedB : List Event :=
  launchEvents ⟨directoryA⟩ sbatch7 ++ .upload directoryB archiveB ::
    restartEvents [directoryB, directoryA] ([.done, .done] ++ sbatch7)

end Runs

end ScalarLM.Slurm
