import ScalarLM.Slurm.TrainingProcesses

/-! When a terminal status stays, and the job is not submitted again. -/

namespace ScalarLM.Slurm

open Transition

section Conditions

/-- Whether a process has a status ahead that is not terminal. -/
def Phase.reopens (rank : Nat) : Phase → Bool
  | .starting => true
  | .training => decide (rank = 0)
  | .updating update _ => !update.status.terminal
  | _ => false

def Task.recording (directory : BaseName) : Task → Bool
  | .getJobId trainArgs _ _ => decide (trainArgs.jobDirectory = directory)
  | .readStatus trainArgs _ _ _ => decide (trainArgs.jobDirectory = directory)
  | .openStatus trainArgs _ _ _ => decide (trainArgs.jobDirectory = directory)
  | .dumpStatus trainArgs _ _ _ => decide (trainArgs.jobDirectory = directory)
  | _ => false

def othersDone (phases : List Phase) (rank : Nat) : Bool :=
  phases.zipIdx.all fun other => decide (other.2 = rank) || !other.1.reopens other.2

/-- A terminal status is written when neither the event loop nor another process of the job has
one ahead that is not terminal. An upload is harmless and leaves the status files that are there
as they are. -/
def undisturbed (cluster : Cluster) : ClusterEvent → Bool
  | .process directory rank action =>
      match statusWrite cluster (.process directory rank action) with
      | some written => !written.2.terminal ||
          (!cluster.server.task.recording directory &&
            othersDone (cluster.processes directory) rank)
      | none => true
  | .server (.upload _ archive) =>
      archive.harmless cluster.server &&
        archive.status.all fun entry => (cluster.server.status entry.1).isNone
  | _ => true

/-- A step that opens the job of a directory again: it writes a status that is not terminal, or
submits the job. -/
def reopened (cluster : Cluster) (event : ClusterEvent) (directory : BaseName) : Prop :=
  (∃ status, statusWrite cluster event = some (directory, status) ∧ status.terminal = false) ∨
    submission cluster event = some directory

end Conditions

section EventLoop

def Task.concerns (directory : BaseName) : Task → Bool
  | .makeTrainingDirectory trainArgs => decide (trainArgs.jobDirectory = directory)
  | .dumpConfig trainArgs => decide (trainArgs.jobDirectory = directory)
  | .restartJob job _ _ => decide (job = directory)
  | .createRunCommand trainArgs _ => decide (trainArgs.jobDirectory = directory)
  | .readStatus trainArgs _ _ _ => decide (trainArgs.jobDirectory = directory)
  | .openStatus trainArgs _ _ _ => decide (trainArgs.jobDirectory = directory)
  | .dumpStatus trainArgs _ _ _ => decide (trainArgs.jobDirectory = directory)
  | .runSbatch trainArgs _ => decide (trainArgs.jobDirectory = directory)
  | .getJobId trainArgs _ _ => decide (trainArgs.jobDirectory = directory)
  | _ => false

/-- A file that gives a restart no reason to submit the job. -/
def settled : Option StatusFile → Bool
  | some (.readable jobStatus) => jobStatus.status.terminal
  | some .unreadable => true
  | none => false

structure Closed (state : State) (directory : BaseName) : Prop where
  settled : settled (state.status directory) = true
  away : state.task.concerns directory = false

structure StaysClosed (before after : State) (directory : BaseName) : Prop where
  closed : Closed after directory
  names : directory ∈ after.names → directory ∈ before.names

variable {state : State} {directory : BaseName}

theorem stays_takes (closed : Closed state directory) (task : Task)
    (away : task.concerns directory = false) :
    StaysClosed state (state.takes task) directory :=
  ⟨⟨closed.settled, away⟩, id⟩

theorem stays_same (closed : Closed state directory) : StaysClosed state state directory :=
  ⟨closed, id⟩

theorem settled_withStatus (closed : Closed state directory) (other : BaseName)
    (file : StatusFile) (apart : other ≠ directory) :
    settled ((state.withStatus other file).status directory) = true := by
  have same : (state.withStatus other file).status directory = state.status directory :=
    if_neg (Ne.symm apart)
  rw [same]
  exact closed.settled

theorem next_away {trainArgs : TrainArgs} (apart : trainArgs.jobDirectory ≠ directory)
    (next : Next) (caller : Caller) : (next.task trainArgs caller).concerns directory = false := by
  cases next with
  | sbatch => exact decide_eq_false apart
  | jobId stdout => exact decide_eq_false apart
  | finish => cases caller <;> rfl

/-- A restart passes over a directory whose status is terminal or cannot be loaded. -/
theorem stays_getRunningJobs (closed : Closed state directory) (slurmJobNames : List (List Char))
    (paths : List BaseName) :
    StaysClosed state (state.getRunningJobs slurmJobNames paths) directory := by
  cases paths with
  | nil => exact stays_takes closed _ rfl
  | cons path paths =>
      rw [State.getRunningJobs]
      split
      · exact stays_takes closed _ rfl
      · exact stays_takes closed _ rfl
      · rename_i jobStatus found
        split
        · rename_i resumed
          split
          · exact stays_takes closed _ rfl
          · refine stays_takes closed _ (decide_eq_false ?_)
            intro same
            have final := closed.settled
            rw [← same, found] at final
            rcases resumed with status | status <;> rw [settled, status] at final <;> cases final
        · exact stays_takes closed _ rfl

theorem stays_proceed (safe : Safe state) (closed : Closed state directory) (answer : Answer) :
    StaysClosed state (state.proceed answer) directory := by
  have held := safe.task
  have away := closed.away
  have same := stays_same closed
  have ended := stays_takes closed .idle rfl
  unfold State.proceed
  generalize running : state.task = task at held away
  cases task with
  | idle => cases answer with
    | raised => exact ended
    | _ => exact same
  | waitForSlurm trainArgs => cases answer with
    | done => exact stays_takes closed _ rfl
    | raised => exact ended
    | _ => exact same
  | jobAlreadyExists trainArgs => cases answer with
    | done =>
        dsimp only
        split
        · exact stays_takes closed _ rfl
        · rename_i unstarted
          refine stays_takes closed _ (decide_eq_false ?_)
          intro here
          have final := closed.settled
          rw [← here, Option.not_isSome_iff_eq_none.mp unstarted] at final
          cases final
    | raised => exact ended
    | _ => exact same
  | makeTrainingDirectory trainArgs => cases answer with
    | done =>
        have made := withDirectory_rest state trainArgs.jobDirectory
        refine ⟨⟨?_, away⟩, ?_⟩
        · change settled ((state.withDirectory trainArgs.jobDirectory).status directory) = true
          rw [made.2.2.1]
          exact closed.settled
        · change directory ∈ (state.withDirectory trainArgs.jobDirectory).names → _
          rw [made.1]
          exact id
    | raised => exact ended
    | _ => exact same
  | dumpConfig trainArgs => cases answer with
    | written file => exact ⟨⟨closed.settled, closed.away⟩, id⟩
    | done => exact ⟨⟨closed.settled, away⟩, id⟩
    | raised => exact ended
    | _ => exact same
  | getSlurmJobs => cases answer with
    | done => exact stays_takes closed _ rfl
    | raised => exact ended
    | _ => exact same
  | listdir slurmJobNames => cases answer with
    | entries paths =>
        dsimp only
        split
        · exact stays_takes closed _ rfl
        · exact same
    | raised => exact ended
    | _ => exact same
  | getRunningJobs slurmJobNames paths => cases answer with
    | done => exact stays_getRunningJobs closed slurmJobNames paths
    | raised => exact ended
    | _ => exact same
  | restartJob job slurmJobNames paths => cases answer with
    | done =>
        have own := safe.kept.configured job held.1
        dsimp only
        rw [State.restartJob]
        split
        · rename_i trainArgs found
          have here : trainArgs.jobDirectory = job := by
            rw [State.Own, found] at own
            exact of_decide_eq_true own
          subst here
          exact stays_takes closed _ away
        · exact ended
    | raised => exact ended
    | _ => exact same
  | createRunCommand trainArgs caller => cases answer with
    | now time => exact stays_takes closed _ away
    | raised => exact ended
    | _ => exact same
  | readStatus trainArgs jobStatus next caller => cases answer with
    | done =>
        dsimp only
        rw [State.readStatus]
        split
        · exact stays_takes closed _ away
        · exact stays_takes closed _ away
        · exact ended
    | raised => exact ended
    | _ => exact same
  | openStatus trainArgs jobStatus next caller => cases answer with
    | done =>
        exact ⟨⟨settled_withStatus closed _ _ (of_decide_eq_false away), away⟩, id⟩
    | raised => exact ended
    | _ => exact same
  | dumpStatus trainArgs jobStatus next caller => cases answer with
    | done =>
        have apart := of_decide_eq_false away
        exact ⟨⟨settled_withStatus closed _ _ apart, next_away apart next caller⟩, id⟩
    | raised => exact ended
    | _ => exact same
  | runSbatch trainArgs caller => cases answer with
    | submitted id partition columns =>
        refine ⟨⟨closed.settled, away⟩, ?_⟩
        intro member
        rw [submit_names, List.mem_append, List.mem_singleton] at member
        exact member.resolve_right (Ne.symm (of_decide_eq_false away))
    | refused stdout stderr => exact stays_takes closed _ away
    | raised => exact ended
    | _ => exact same
  | getJobId trainArgs stdout caller => cases answer with
    | done =>
        dsimp only
        rw [State.getJobId]
        split
        · exact stays_takes closed _ away
        · exact ended
    | raised => exact ended
    | _ => exact same
  | getExistingJobInfo trainArgs => cases answer with
    | done => exact ended
    | raised => exact ended
    | _ => exact same

theorem names_getRunningJobs (slurmJobNames : List (List Char)) (paths : List BaseName) :
    (state.getRunningJobs slurmJobNames paths).names = state.names := by
  cases paths with
  | nil => rfl
  | cons path paths =>
      rw [State.getRunningJobs]
      split
      · rfl
      · rfl
      · split
        · split <;> rfl
        · rfl

theorem names_restartJob (job : BaseName) (slurmJobNames : List (List Char))
    (paths : List BaseName) :
    (state.restartJob job slurmJobNames paths).names = state.names := by
  rw [State.restartJob]
  split <;> rfl

theorem names_readStatus (trainArgs : TrainArgs) (jobStatus : JobStatus) (next : Next)
    (caller : Caller) : (state.readStatus trainArgs jobStatus next caller).names = state.names := by
  rw [State.readStatus]
  split <;> rfl

theorem names_getJobId (trainArgs : TrainArgs) (stdout : List Char) (caller : Caller) :
    (state.getJobId trainArgs stdout caller).names = state.names := by
  rw [State.getJobId]
  split <;> rfl

theorem names_proceed (answer : Answer) : state.names ⊆ (state.proceed answer).names := by
  unfold State.proceed
  split
  case h_4 =>
    change state.names ⊆ (state.withDirectory _).names
    rw [(withDirectory_rest state _).1]
    exact List.Subset.refl _
  case h_9 =>
    rw [names_getRunningJobs]
    exact List.Subset.refl _
  case h_10 =>
    rw [names_restartJob]
    exact List.Subset.refl _
  case h_12 =>
    rw [names_readStatus]
    exact List.Subset.refl _
  case h_15 =>
    rw [submit_names]
    exact List.subset_append_left _ _
  case h_17 =>
    rw [names_getJobId]
    exact List.Subset.refl _
  case h_3 => split <;> exact List.Subset.refl _
  case h_8 => split <;> exact List.Subset.refl _
  all_goals exact List.Subset.refl _

theorem stays_begins (closed : Closed state directory) (task : Task)
    (away : task.concerns directory = false) :
    StaysClosed state (state.begins task) directory := by
  rw [State.begins]
  split
  · exact stays_takes closed task away
  · exact stays_same closed

theorem stays_upload (closed : Closed state directory) (added : BaseName) (archive : Archive)
    (calm : archive.status.all (fun entry => (state.status entry.1).isNone) = true) :
    StaysClosed state (step state (.upload added archive)) directory := by
  rw [step]
  split
  · rename_i idle
    obtain ⟨names, _, status, task⟩ := withDirectory_rest state added
    obtain ⟨names', _, _, task'⟩ :=
      withDirectories_rest (state.withDirectory added) archive.directories
    have untouched : archive.status.lookup directory = none := by
      cases found : archive.status.lookup directory with
      | none => rfl
      | some file =>
          have absent := List.all_eq_true.mp calm _ (lookup_mem found)
          have final := closed.settled
          rw [Option.isNone_iff_eq_none.mp absent] at final
          cases final
    refine ⟨⟨?_, ?_⟩, ?_⟩
    · change settled (archive.statusAfter (state.withDirectory added) directory) = true
      rw [Archive.statusAfter, untouched, status]
      exact closed.settled
    · change Task.concerns directory
        ((state.withDirectory added).withDirectories archive.directories).task = false
      rw [task', task]
      exact closed.away
    · change directory ∈
        ((state.withDirectory added).withDirectories archive.directories).names → _
      rw [names', names]
      exact id
  · exact stays_same closed

theorem stays_step (safe : Safe state) (closed : Closed state directory) (event : Event)
    (other : ∀ written file, event ≠ .statusWritten written file)
    (calm : ∀ added archive, event = .upload added archive →
      archive.status.all (fun entry => (state.status entry.1).isNone) = true) :
    StaysClosed state (step state event) directory := by
  cases event with
  | upload added archive => exact stays_upload closed added archive (calm added archive rfl)
  | launch trainArgs => exact stays_begins closed _ rfl
  | restart => exact stays_begins closed _ rfl
  | proceeds answer => exact stays_proceed safe closed answer
  | statusWritten written file => exact absurd rfl (other written file)
  | jobChanges index jobState columns =>
      refine ⟨⟨closed.settled, closed.away⟩, ?_⟩
      intro member
      rw [← jobChanges_names index jobState columns]
      exact member
  | jobEnds index =>
      exact ⟨⟨closed.settled, closed.away⟩,
        fun member => ((state.slurm.eraseIdx_sublist index).map _).subset member⟩

theorem names_step (event : Event) (other : ∀ index, event ≠ .jobEnds index) :
    state.names ⊆ (step state event).names := by
  cases event with
  | upload added archive =>
      rw [step]
      split
      · change state.names ⊆
          ((state.withDirectory added).withDirectories archive.directories).names
        rw [(withDirectories_rest _ _).1, (withDirectory_rest state added).1]
        exact List.Subset.refl _
      · exact List.Subset.refl _
  | launch trainArgs =>
      rw [step, State.begins]
      split <;> exact List.Subset.refl _
  | restart =>
      rw [step, State.begins]
      split <;> exact List.Subset.refl _
  | proceeds answer => exact names_proceed answer
  | statusWritten written file =>
      rw [step]
      split <;> exact List.Subset.refl _
  | jobChanges index jobState columns =>
      change state.names ⊆ (state.slurm.modify index (SlurmJob.changed jobState columns)).map
        SlurmJob.name
      rw [jobChanges_names]
      exact List.Subset.refl _
  | jobEnds index => exact absurd rfl (other index)

theorem write_away (cluster : Cluster) (closed : Closed cluster.server directory) (event : Event) :
    ¬ reopened cluster (.server event) directory := by
  have away := closed.away
  intro opens
  rcases opens with ⟨status, write, _⟩ | submits
  · cases event with
    | proceeds answer =>
        cases answer with
        | done =>
            rw [statusWrite] at write
            split at write
            · rename_i trainArgs jobStatus next caller task
              rw [task] at away
              cases write
              exact of_decide_eq_false away rfl
            · cases write
        | _ => cases write
    | _ => cases write
  · cases event with
    | proceeds answer =>
        rw [submission] at submits
        split at submits
        · rename_i trainArgs caller task
          rw [task] at away
          cases submits
          exact of_decide_eq_false away rfl
        · cases submits
    | _ => cases submits

end EventLoop

section Clusters

/-- The event loop is safe, and there are processes only of jobs that Slurm lists. -/
structure ClusterSafe (cluster : Cluster) : Prop where
  server : Safe cluster.server
  listed : ∀ directory, cluster.processes directory ≠ [] → directory ∈ cluster.server.names

variable {cluster : Cluster} {directory : BaseName}

theorem withProcesses_of_ne {other : BaseName} (phases : List Phase) (apart : other ≠ directory) :
    (cluster.withProcesses directory phases).processes other = cluster.processes other :=
  Function.update_of_ne apart _ _

theorem names_statusWritten (state : State) (written : BaseName) (file : StatusFile) :
    (step state (.statusWritten written file)).names = state.names := by
  rw [step]
  split <;> rfl

theorem runs_listed (state : State) (runs : state.runs directory = true) :
    directory ∈ state.names := by
  obtain ⟨job, member, running⟩ := List.any_eq_true.mp runs
  have named := of_decide_eq_true (Bool.and_eq_true_iff.mp running).1
  exact List.mem_map.mpr ⟨job, member, named⟩

theorem clusterStep_server (event : Event)
    (unwritten : ∀ written file, event ≠ .statusWritten written file)
    (lasting : ∀ index, event ≠ .jobEnds index) :
    clusterStep cluster (.server event) = ⟨step cluster.server event, cluster.processes⟩ := by
  cases event with
  | statusWritten written file => exact absurd rfl (unwritten written file)
  | jobEnds index => exact absurd rfl (lasting index)
  | _ => rfl

theorem act_cases (cluster : Cluster) (directory : BaseName) (rank : Nat) (action : Action) :
    cluster.act directory rank action = cluster ∨
      ∃ phase, (cluster.processes directory)[rank]? = some phase ∧
        (cluster.act directory rank action).processes =
          Function.update cluster.processes directory ((cluster.processes directory).set rank
            (phase.act rank (cluster.server.status directory) action)) ∧
        ((cluster.act directory rank action).server = cluster.server ∨
          ∃ file, phase.written action = some file ∧
            (cluster.act directory rank action).server =
              step cluster.server (.statusWritten directory file)) := by
  unfold Cluster.act
  split
  · exact .inl rfl
  · rename_i phase found
    refine .inr ⟨phase, found, ?_⟩
    dsimp only
    split
    · exact ⟨rfl, .inl rfl⟩
    · rename_i file written
      exact ⟨rfl, .inr ⟨file, written, rfl⟩⟩

theorem act_written (rank : Nat) (action : Action) (phase : Phase) (file : StatusFile)
    (found : (cluster.processes directory)[rank]? = some phase)
    (written : phase.written action = some file) :
    cluster.act directory rank action = ⟨step cluster.server (.statusWritten directory file),
      Function.update cluster.processes directory ((cluster.processes directory).set rank
        (phase.act rank (cluster.server.status directory) action))⟩ := by
  rw [Cluster.act, found]
  dsimp only
  rw [written]
  rfl

theorem jobEnds_cases (cluster : Cluster) (index : Nat) :
    cluster.jobEnds index = cluster ∨
      ∃ job, cluster.server.slurm[index]? = some job ∧
        cluster.jobEnds index = ⟨step cluster.server (.jobEnds index),
          Function.update cluster.processes job.name []⟩ := by
  unfold Cluster.jobEnds
  split
  · exact .inl rfl
  · rename_i job found
    exact .inr ⟨job, found, rfl⟩

theorem jobStarts_cases (cluster : Cluster) (started : BaseName) (worldSize : Nat) :
    clusterStep cluster (.jobStarts started worldSize) = cluster ∨
      cluster.processes started = [] ∧ cluster.server.runs started = true ∧
        clusterStep cluster (.jobStarts started worldSize) =
          cluster.withProcesses started (List.replicate worldSize .starting) := by
  rw [clusterStep]
  split
  · rename_i none
    split
    · exact .inr ⟨none, ‹_›, rfl⟩
    · exact .inl rfl
  · exact .inl rfl

theorem names_jobEnds (state : State) (index : Nat) (job : SlurmJob)
    (found : state.slurm[index]? = some job) (other : directory ≠ job.name)
    (member : directory ∈ state.names) : directory ∈ (step state (.jobEnds index)).names := by
  obtain ⟨listed, present, rfl⟩ := List.mem_map.mp member
  obtain ⟨position, placed⟩ := List.mem_iff_getElem?.mp present
  refine List.mem_map.mpr ⟨listed, ?_, rfl⟩
  refine List.mem_eraseIdx_iff_getElem?.mpr ⟨position, ?_, placed⟩
  intro same
  rw [same, found, Option.some.injEq] at placed
  exact other (congrArg SlurmJob.name placed.symm)

theorem gone_jobEnds (state : State) (index : Nat) (job : SlurmJob)
    (found : state.slurm[index]? = some job) (alone : state.names.Nodup) :
    job.name ∉ (step state (.jobEnds index)).names := by
  intro member
  obtain ⟨listed, present, named⟩ := List.mem_map.mp member
  obtain ⟨position, apart, placed⟩ := List.mem_eraseIdx_iff_getElem?.mp present
  have here : state.names[index]? = some job.name := by
    rw [State.names, List.getElem?_map, found]
    rfl
  have there : state.names[position]? = some job.name := by
    rw [State.names, List.getElem?_map, placed, ← named]
    rfl
  obtain ⟨bound, _⟩ := List.getElem?_eq_some_iff.mp there
  exact apart ((List.getElem?_inj bound alone).mp (there.trans here.symm))

theorem clusterSafe_act (rank : Nat) (action : Action) (safe : ClusterSafe cluster) :
    ClusterSafe (cluster.act directory rank action) := by
  rcases act_cases cluster directory rank action with same | ⟨phase, found, moved, server⟩
  · rw [same]
    exact safe
  · have names : (cluster.act directory rank action).server.names = cluster.server.names := by
      rcases server with same | ⟨file, _, same⟩
      · rw [same]
      · rw [same, names_statusWritten]
    refine ⟨?_, ?_⟩
    · rcases server with same | ⟨file, _, same⟩
      · rw [same]
        exact safe.server
      · rw [same]
        exact safe_step _ rfl safe.server
    · intro other present
      rw [names]
      refine safe.listed other ?_
      rw [moved] at present
      by_cases here : other = directory
      · intro empty
        rw [here] at empty
        rw [empty] at found
        cases found
      · rwa [Function.update_of_ne here] at present

theorem clusterSafe_jobEnds (index : Nat) (safe : ClusterSafe cluster) :
    ClusterSafe (cluster.jobEnds index) := by
  rcases jobEnds_cases cluster index with same | ⟨job, found, same⟩
  · rw [same]
    exact safe
  · rw [same]
    refine ⟨safe_step (.jobEnds index) rfl safe.server, ?_⟩
    intro other present
    by_cases ended : other = job.name
    · rw [ended] at present
      exact absurd (Function.update_self ..) present
    · change Function.update cluster.processes job.name [] other ≠ [] at present
      rw [Function.update_of_ne ended] at present
      exact names_jobEnds _ index job found ended (safe.listed other present)

theorem clusterSafe_server (event : Event) (calm : harmless cluster.server event = true)
    (safe : ClusterSafe cluster) :
    ClusterSafe (clusterStep cluster (.server event)) := by
  by_cases written : ∃ directory file, event = .statusWritten directory file
  · obtain ⟨directory, file, rfl⟩ := written
    exact safe
  · by_cases ends : ∃ index, event = .jobEnds index
    · obtain ⟨index, rfl⟩ := ends
      exact clusterSafe_jobEnds index safe
    · rw [not_exists] at ends
      rw [clusterStep_server event (fun directory file same => written ⟨directory, file, same⟩)
        ends]
      refine ⟨safe_step event calm safe.server, ?_⟩
      intro other present
      exact names_step event ends (safe.listed other present)

theorem harmless_of_undisturbed (event : Event)
    (calm : undisturbed cluster (.server event) = true) : harmless cluster.server event = true := by
  cases event with
  | upload directory archive => exact (Bool.and_eq_true_iff.mp calm).1
  | _ => rfl

theorem clusterSafe_step (event : ClusterEvent) (calm : undisturbed cluster event = true)
    (safe : ClusterSafe cluster) : ClusterSafe (clusterStep cluster event) := by
  cases event with
  | server event => exact clusterSafe_server event (harmless_of_undisturbed event calm) safe
  | jobStarts started worldSize =>
      rcases jobStarts_cases cluster started worldSize with same | ⟨_, runs, same⟩
      · rw [same]
        exact safe
      · rw [same]
        refine ⟨safe.server, ?_⟩
        intro other present
        by_cases here : other = started
        · rw [here]
          exact runs_listed _ runs
        · rw [withProcesses_of_ne _ here] at present
          exact safe.listed other present
  | process written rank action => exact clusterSafe_act rank action safe
  | garbled written =>
      refine ⟨safe_step (.statusWritten written .unreadable) rfl safe.server, ?_⟩
      intro other present
      change other ∈ (step cluster.server (.statusWritten written .unreadable)).names
      rw [names_statusWritten]
      exact safe.listed other present

theorem clusterSafe_initial : ClusterSafe Cluster.initial where
  server := safe_initial
  listed := fun _ present => absurd rfl present

end Clusters

section Finality

/-- A terminal status stays: nobody has another status of the job ahead. -/
structure Final (cluster : Cluster) (directory : BaseName) : Prop where
  closed : Closed cluster.server directory
  quiet : ∀ (rank : Nat) phase, (cluster.processes directory)[rank]? = some phase →
    phase.reopens rank = false
  gone : cluster.processes directory = [] → directory ∉ cluster.server.names

variable {cluster : Cluster} {directory : BaseName}

theorem contents_status (update : Update) (current : Option JobStatus) :
    (update.contents current).status = update.status := by
  cases current <;> rfl

theorem quiet_interrupted (rank : Nat) (inside : Bool) (phase : Phase)
    (quiet : phase.reopens rank = false) : (phase.interrupted inside).reopens rank = false := by
  cases phase with
  | updating update stage =>
      cases update with
      | begins => cases quiet
      | history => cases quiet
      | completed => cases stage <;> cases inside <;> rfl
      | failed => cases stage <;> cases inside <;> rfl
  | finished => cases inside <;> rfl
  | _ => rfl

theorem quiet_act (rank : Nat) (file : Option StatusFile) (phase : Phase) (action : Action)
    (quiet : phase.reopens rank = false) : (phase.act rank file action).reopens rank = false := by
  cases phase with
  | starting => cases quiet
  | training =>
      have other : rank ≠ 0 := of_decide_eq_false quiet
      cases action with
      | history =>
          rw [Phase.act, if_neg other]
          exact quiet
      | proceed => exact quiet
      | _ => rfl
  | updating update stage =>
      cases action with
      | sigcont inside => exact quiet_interrupted rank inside _ quiet
      | proceed => cases stage with
        | writes current => cases update with
          | completed => rfl
          | failed => rfl
          | _ => cases quiet
        | _ => exact quiet
      | raised => cases update with
        | completed => rfl
        | failed => rfl
        | _ => cases quiet
      | exits => rfl
      | _ => exact quiet
  | finished => cases action with
    | sigcont inside => exact quiet_interrupted rank inside _ quiet
    | _ => rfl
  | _ => cases action <;> rfl

theorem written_cases (phase : Phase) (action : Action) (file : StatusFile)
    (written : phase.written action = some file) :
    ∃ update current, (phase = .updating update (.opens current) ∧ file = .unreadable) ∨
      phase = .updating update (.writes current) ∧ file = .readable (update.contents current) ∧
        (action = .proceed ∨ action = .sigcont true) := by
  cases phase with
  | updating update stage =>
      cases stage with
      | read => cases action <;> cases written
      | opens current =>
          cases action with
          | proceed =>
              cases written
              exact ⟨update, current, .inl ⟨rfl, rfl⟩⟩
          | _ => cases written
      | writes current =>
          cases action with
          | proceed =>
              cases written
              exact ⟨update, current, .inr ⟨rfl, rfl, .inl rfl⟩⟩
          | sigcont inside =>
              cases inside with
              | false => cases written
              | true =>
                  cases written
                  exact ⟨update, current, .inr ⟨rfl, rfl, .inr rfl⟩⟩
          | _ => cases written
  | _ => cases action <;> cases written

theorem settled_written (rank : Nat) (phase : Phase) (action : Action) (file : StatusFile)
    (quiet : phase.reopens rank = false) (written : phase.written action = some file) :
    settled (some file) = true := by
  obtain ⟨update, current, ⟨rfl, rfl⟩ | ⟨rfl, rfl, _⟩⟩ := written_cases phase action file written
  · rfl
  · rw [Phase.reopens, Bool.not_eq_false'] at quiet
    rw [settled, contents_status]
    exact quiet

theorem act_of_terminal (rank : Nat) (file : Option StatusFile) (phase : Phase) (action : Action)
    (jobStatus : JobStatus) (written : phase.written action = some (.readable jobStatus))
    (terminal : jobStatus.status.terminal = true) :
    (phase.act rank file action).reopens rank = false := by
  obtain ⟨update, current, ⟨_, wrong⟩ | ⟨rfl, same, _⟩⟩ := written_cases phase action _ written
  · cases wrong
  · cases same
    rw [contents_status] at terminal
    exact quiet_act rank file _ action (by rw [Phase.reopens, terminal]; rfl)

theorem closed_statusWritten {state : State} (closed : Closed state directory)
    (written : BaseName) (file : StatusFile)
    (final : written = directory → settled (some file) = true) :
    Closed (step state (.statusWritten written file)) directory := by
  rw [step]
  split
  · refine ⟨?_, closed.away⟩
    by_cases here : written = directory
    · have same : (state.withStatus written file).status directory = some file :=
        if_pos here.symm
      rw [same]
      exact final here
    · exact settled_withStatus closed written file here
  · exact closed

theorem final_act (rank : Nat) (action : Action) (final : Final cluster directory) :
    Final (cluster.act directory rank action) directory := by
  rcases act_cases cluster directory rank action with same | ⟨phase, found, moved, server⟩
  · rw [same]
    exact final
  · have present : cluster.processes directory ≠ [] :=
      List.ne_nil_of_mem (List.mem_of_getElem? found)
    have here := congrFun moved directory
    rw [Function.update_self] at here
    refine ⟨?_, ?_, ?_⟩
    · rcases server with same | ⟨file, written, same⟩
      · rw [same]
        exact final.closed
      · rw [same]
        exact closed_statusWritten final.closed directory file
          fun _ => settled_written rank phase action file (final.quiet rank phase found) written
    · intro other later at_other
      rw [here] at at_other
      by_cases own : rank = other
      · subst own
        rw [List.getElem?_set_self (List.getElem?_eq_some_iff.mp found).1] at at_other
        cases at_other
        exact quiet_act rank _ phase action (final.quiet rank phase found)
      · rw [List.getElem?_set_ne own] at at_other
        exact final.quiet other later at_other
    · intro empty
      rw [here, List.set_eq_nil_iff] at empty
      exact absurd empty present

theorem final_elsewhere {later : Cluster} (final : Final cluster directory)
    (closed : Closed later.server directory)
    (same : later.processes directory = cluster.processes directory)
    (fewer : directory ∈ later.server.names → directory ∈ cluster.server.names) :
    Final later directory := by
  refine ⟨closed, ?_, ?_⟩
  · rw [same]
    exact final.quiet
  · rw [same]
    exact fun empty member => final.gone empty (fewer member)

theorem final_act_away (written : BaseName) (apart : directory ≠ written) (rank : Nat)
    (action : Action) (final : Final cluster directory) :
    Final (cluster.act written rank action) directory := by
  rcases act_cases cluster written rank action with same | ⟨phase, found, moved, server⟩
  · rw [same]
    exact final
  · have here := congrFun moved directory
    rw [Function.update_of_ne apart] at here
    rcases server with same | ⟨file, _, same⟩
    · refine final_elsewhere final ?_ here ?_
      · rw [same]
        exact final.closed
      · rw [same]
        exact id
    · refine final_elsewhere final ?_ here ?_
      · rw [same]
        exact closed_statusWritten final.closed written file fun own => absurd own.symm apart
      · rw [same, names_statusWritten]
        exact id

theorem final_jobEnds (index : Nat) (safe : ClusterSafe cluster)
    (final : Final cluster directory) : Final (cluster.jobEnds index) directory := by
  rcases jobEnds_cases cluster index with same | ⟨job, found, same⟩
  · rw [same]
    exact final
  · have stays := stays_step safe.server final.closed (.jobEnds index)
      (fun written file other => Event.noConfusion other)
      fun added archive other => Event.noConfusion other
    rw [same]
    by_cases ended : directory = job.name
    · have none : Function.update cluster.processes job.name [] directory = [] := by
        rw [ended]
        exact Function.update_self ..
      refine ⟨stays.closed, ?_, ?_⟩
      · intro rank phase placed
        change (Function.update cluster.processes job.name [] directory)[rank]? = _ at placed
        rw [none] at placed
        cases placed
      · intro _
        rw [ended]
        exact gone_jobEnds _ index job found safe.server.kept.alone
    · exact final_elsewhere final stays.closed (Function.update_of_ne ended _ _) stays.names

theorem final_server (event : Event) (safe : ClusterSafe cluster)
    (calm : undisturbed cluster (.server event) = true) (final : Final cluster directory) :
    Final (clusterStep cluster (.server event)) directory := by
  by_cases written : ∃ directory file, event = .statusWritten directory file
  · obtain ⟨directory, file, rfl⟩ := written
    exact final
  · by_cases ends : ∃ index, event = .jobEnds index
    · obtain ⟨index, rfl⟩ := ends
      exact final_jobEnds index safe final
    · have unwritten : ∀ directory file, event ≠ .statusWritten directory file :=
        fun directory file same => written ⟨directory, file, same⟩
      rw [not_exists] at ends
      have stays := stays_step safe.server final.closed event unwritten
        (by rintro added archive rfl; exact (Bool.and_eq_true_iff.mp calm).2)
      rw [clusterStep_server event unwritten ends]
      exact final_elsewhere final stays.closed rfl stays.names

theorem final_jobStarts (started : BaseName) (worldSize : Nat)
    (final : Final cluster directory) :
    Final (clusterStep cluster (.jobStarts started worldSize)) directory := by
  rcases jobStarts_cases cluster started worldSize with same | ⟨none, runs, same⟩
  · rw [same]
    exact final
  · by_cases here : directory = started
    · rw [← here] at none runs
      exact absurd (runs_listed _ runs) (final.gone none)
    · rw [same]
      exact final_elsewhere final final.closed (withProcesses_of_ne _ here) id

theorem final_step (event : ClusterEvent) (safe : ClusterSafe cluster)
    (calm : undisturbed cluster event = true) (final : Final cluster directory) :
    Final (clusterStep cluster event) directory := by
  cases event with
  | server event => exact final_server event safe calm final
  | jobStarts started worldSize => exact final_jobStarts started worldSize final
  | process written rank action =>
      by_cases here : directory = written
      · subst here
        exact final_act rank action final
      · exact final_act_away written here rank action final
  | garbled written =>
      have closed := closed_statusWritten final.closed written .unreadable fun _ => rfl
      refine final_elsewhere final closed rfl ?_
      change directory ∈ (step cluster.server (.statusWritten written .unreadable)).names → _
      rw [names_statusWritten]
      exact id

/-- When the status is final, no step opens the job again. -/
theorem not_reopened (event : ClusterEvent) (final : Final cluster directory) :
    ¬ reopened cluster event directory := by
  cases event with
  | server event => exact write_away cluster final.closed event
  | process written rank action =>
      intro opens
      rcases opens with ⟨status, write, unfinished⟩ | submits
      · rw [statusWrite] at write
        split at write
        · cases write
        · rename_i phase found
          split at write
          · rename_i jobStatus content
            cases write
            have settles := settled_written rank phase action _
              (final.quiet rank phase found) content
            rw [settled, unfinished] at settles
            cases settles
          · cases write
      · cases submits
  | jobStarts started worldSize =>
      intro opens
      rcases opens with ⟨status, write, _⟩ | submits
      · cases write
      · cases submits
  | garbled written =>
      intro opens
      rcases opens with ⟨status, write, _⟩ | submits
      · cases write
      · cases submits

theorem concerns_of_listed {state : State} (safe : Safe state) (listed : directory ∈ state.names)
    (unrecording : state.task.recording directory = false) :
    state.task.concerns directory = false := by
  have held := safe.task
  generalize state.task = task at held unrecording
  cases task with
  | makeTrainingDirectory trainArgs =>
      refine decide_eq_false ?_
      intro here
      rw [← here] at listed
      exact safe.kept.started _ listed held
  | dumpConfig trainArgs =>
      refine decide_eq_false ?_
      intro here
      rw [← here] at listed
      exact safe.kept.started _ listed held
  | restartJob job slurmJobNames paths =>
      refine decide_eq_false ?_
      intro here
      rw [← here] at listed
      exact held.2.1 listed
  | createRunCommand trainArgs caller =>
      refine decide_eq_false ?_
      intro here
      rw [← here] at listed
      exact held.absent listed
  | runSbatch trainArgs caller =>
      refine decide_eq_false ?_
      intro here
      rw [← here] at listed
      exact held.2.absent listed
  | readStatus trainArgs jobStatus next caller => exact unrecording
  | openStatus trainArgs jobStatus next caller => exact unrecording
  | dumpStatus trainArgs jobStatus next caller => exact unrecording
  | getJobId trainArgs stdout caller => exact unrecording
  | _ => rfl

theorem statusWrite_process (rank : Nat) (action : Action) (status : TrainingJobStatus)
    (write : statusWrite cluster (.process directory rank action) = some (directory, status)) :
    ∃ phase jobStatus, (cluster.processes directory)[rank]? = some phase ∧
      phase.written action = some (.readable jobStatus) ∧ jobStatus.status = status := by
  rw [statusWrite] at write
  split at write
  · cases write
  · rename_i phase found
    split at write
    · rename_i jobStatus content
      cases write
      exact ⟨phase, jobStatus, found, content, rfl⟩
    · cases write

theorem alone_of_undisturbed (rank : Nat) (action : Action) (status : TrainingJobStatus)
    (calm : undisturbed cluster (.process directory rank action) = true)
    (write : statusWrite cluster (.process directory rank action) = some (directory, status))
    (terminal : status.terminal = true) :
    cluster.server.task.recording directory = false ∧
      othersDone (cluster.processes directory) rank = true := by
  rw [undisturbed, write] at calm
  dsimp only at calm
  rw [terminal, Bool.not_true, Bool.false_or, Bool.and_eq_true, Bool.not_eq_true'] at calm
  exact calm

theorem quiet_of_othersDone (phases : List Phase) (rank other : Nat) (phase : Phase)
    (done : othersDone phases rank = true) (apart : other ≠ rank)
    (placed : phases[other]? = some phase) : phase.reopens other = false := by
  have member : (phase, other) ∈ phases.zipIdx := List.mem_zipIdx_iff_getElem?.mpr placed
  have either := List.all_eq_true.mp done (phase, other) member
  dsimp only at either
  rw [decide_eq_false apart, Bool.false_or, Bool.not_eq_true'] at either
  exact either

/-- A terminal status that is written undisturbed is final. -/
theorem final_of_terminal (rank : Nat) (action : Action) (status : TrainingJobStatus)
    (safe : ClusterSafe cluster)
    (calm : undisturbed cluster (.process directory rank action) = true)
    (write : statusWrite cluster (.process directory rank action) = some (directory, status))
    (terminal : status.terminal = true) :
    Final (clusterStep cluster (.process directory rank action)) directory := by
  obtain ⟨unrecording, done⟩ := alone_of_undisturbed rank action status calm write terminal
  obtain ⟨own, jobStatus, found, written, rfl⟩ := statusWrite_process rank action status write
  have present : cluster.processes directory ≠ [] :=
    List.ne_nil_of_mem (List.mem_of_getElem? found)
  have listed := safe.listed directory present
  have bound := (List.getElem?_eq_some_iff.mp found).1
  have ended := act_of_terminal rank (cluster.server.status directory) own action jobStatus written
    terminal
  have moved : clusterStep cluster (.process directory rank action) = _ :=
    act_written rank action own (.readable jobStatus) found written
  have here := congrFun (congrArg Cluster.processes moved) directory
  dsimp only at here
  rw [Function.update_self] at here
  refine ⟨⟨?_, ?_⟩, ?_, ?_⟩
  · rw [moved, step, if_pos (.inr listed)]
    have same : (cluster.server.withStatus directory (.readable jobStatus)).status directory =
        some (.readable jobStatus) := if_pos rfl
    rw [same]
    exact terminal
  · rw [moved, step, if_pos (.inr listed)]
    change cluster.server.task.concerns directory = false
    exact concerns_of_listed safe.server listed unrecording
  · intro other phase placed
    rw [here] at placed
    by_cases own : rank = other
    · subst own
      rw [List.getElem?_set_self bound] at placed
      cases placed
      exact ended
    · rw [List.getElem?_set_ne own] at placed
      exact quiet_of_othersDone _ rank other phase done (Ne.symm own) placed
  · intro empty
    rw [here, List.set_eq_nil_iff] at empty
    exact absurd empty present

end Finality

def serverEvents (answers : List Answer) : List ClusterEvent :=
  answers.map fun answer => .server (.proceeds answer)

def trainingEvents (directory : BaseName) (columns : Columns) : List ClusterEvent :=
  let actions : List Action := List.replicate 4 .proceed ++ [.trained, .proceed, .proceed, .proceed]
  .server (.jobChanges 0 .running columns) :: .jobStarts directory 1 ::
    actions.map fun action => .process directory 0 action

def launchA : List ClusterEvent :=
  .server (.launch ⟨directoryA⟩) :: serverEvents (List.replicate 4 .done ++ sbatch7.take 5)

def trainA : List ClusterEvent := trainingEvents directoryA columnsU

end ScalarLM.Slurm
