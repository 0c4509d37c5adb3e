import ScalarLM.Slurm.Squeue
import ScalarLM.Lib.Transition

/-! `/train` launches and `restart_megatron_jobs` in the event loop of the API, next to the
training processes, which write their status, and to Slurm, where jobs start and end. -/

namespace ScalarLM.Slurm

inductive TrainingJobStatus where
  | queued
  | training
  | completed
  | failed
  deriving DecidableEq

/-- The keys of `status.json` that are written here. -/
structure JobStatus where
  status : TrainingJobStatus
  startTime : Option Nat
  jobId : Option (List Char)
  output : Option (List Char)

def JobStatus.merge (existing new : JobStatus) : JobStatus where
  status := new.status
  startTime := new.startTime.or existing.startTime
  jobId := new.jobId.or existing.jobId
  output := new.output.or existing.output

/-- `status.json`; a beginning of a JSON object that is not all of it cannot be loaded. -/
inductive StatusFile where
  | unreadable
  | readable (jobStatus : JobStatus)

/-- The training arguments. Every job directory is an entry of `training_job_directory`, so
its base name stands for it. -/
structure TrainArgs where
  jobDirectory : BaseName

/-- `config.yaml`, by what loading it gives. A beginning of the file may load as well. -/
inductive ConfigFile where
  | unreadable
  | readable (trainArgs : TrainArgs)

structure RunCommand where
  jobName : BaseName
  cwd : BaseName

def createSlurmRunCommand (trainArgs : TrainArgs) : RunCommand where
  jobName := trainArgs.jobDirectory
  cwd := trainArgs.jobDirectory

def submittedBatchJob : List Char :=
  ['S', 'u', 'b', 'm', 'i', 't', 't', 'e', 'd', ' ', 'b', 'a', 't', 'c', 'h', ' ', 'j', 'o', 'b',
    ' ']

def matchJobId (text : List Char) : Option (List Char) :=
  if submittedBatchJob.isPrefixOf text then
    let group := (text.drop submittedBatchJob.length).takeWhile Char.isDigit
    if group = [] then none else some group
  else none

def getJobIdFromSbatchOutput (sbatchOutput : List Char) : Option (List Char) :=
  sbatchOutput.tails.findSome? matchJobId

/-- What `sbatch` prints of the job that it submits. -/
def submittedOutput (id : JobId) : List Char := submittedBatchJob ++ id.digits ++ ['\n']

/-- What runs `start_slurm_job`: a launch, or a restart with the names that `squeue` gave
and the paths of `os.listdir` still to come. -/
inductive Caller where
  | launch
  | restart (slurmJobNames : List (List Char)) (paths : List BaseName)

inductive Next where
  | sbatch
  | jobId (stdout : List Char)
  | finish

/-- What the event loop is at. Neither function has a point where it is suspended before its
last job is submitted: `time.sleep` and `subprocess.run` block, and the generators of the
restart are run to their next path in the same turn of the loop. -/
inductive Task where
  | idle
  | waitForSlurm (trainArgs : TrainArgs)
  | jobAlreadyExists (trainArgs : TrainArgs)
  | makeTrainingDirectory (trainArgs : TrainArgs)
  | dumpConfig (trainArgs : TrainArgs)
  | getSlurmJobs
  | listdir (slurmJobNames : List (List Char))
  | getRunningJobs (slurmJobNames : List (List Char)) (paths : List BaseName)
  | restartJob (job : BaseName) (slurmJobNames : List (List Char)) (paths : List BaseName)
  | createRunCommand (trainArgs : TrainArgs) (caller : Caller)
  | readStatus (trainArgs : TrainArgs) (jobStatus : JobStatus) (next : Next) (caller : Caller)
  | openStatus (trainArgs : TrainArgs) (jobStatus : JobStatus) (next : Next) (caller : Caller)
  | dumpStatus (trainArgs : TrainArgs) (jobStatus : JobStatus) (next : Next) (caller : Caller)
  | runSbatch (trainArgs : TrainArgs) (caller : Caller)
  | getJobId (trainArgs : TrainArgs) (stdout : List Char) (caller : Caller)
  | getExistingJobInfo (trainArgs : TrainArgs)

structure State where
  /-- The entries of `training_job_directory`. -/
  directories : List BaseName
  status : BaseName → Option StatusFile
  config : BaseName → Option ConfigFile
  /-- The jobs that `squeue` lists. -/
  slurm : List SlurmJob
  task : Task

def State.initial : State where
  directories := []
  status _ := none
  config _ := none
  slurm := []
  task := .idle

inductive Answer where
  | done
  /-- `os.listdir`, in any order. -/
  | entries (paths : List BaseName)
  /-- What a part of `config.yaml` that is written would load as. -/
  | written (config : ConfigFile)
  /-- `time.time` -/
  | now (time : Nat)
  | submitted (id : JobId) (partition : Partition) (columns : Columns)
  | refused (stdout stderr : List Char)
  | raised

/-- What unpacking an archive does to the files that are read here. Its members may go anywhere:
`tar.extractall` follows `..` and links. A file that is gone afterwards is `none`. -/
structure Archive where
  directories : List BaseName
  status : List (BaseName × Option StatusFile)
  config : List (BaseName × Option ConfigFile)

inductive Event where
  /-- The upload makes the directory, unpacks the archive, and copies the `ml` directory. -/
  | upload (directory : BaseName) (archive : Archive)
  | launch (trainArgs : TrainArgs)
  | restart
  | proceeds (answer : Answer)
  /-- A training process writes in the directory that it was started for. -/
  | statusWritten (directory : BaseName) (file : StatusFile)
  | jobChanges (index : Nat) (state : JobState) (columns : Columns)
  | jobEnds (index : Nat)

section Steps

def State.takes (state : State) (task : Task) : State := { state with task := task }

def State.withDirectory (state : State) (directory : BaseName) : State :=
  if directory ∈ state.directories then state
  else { state with directories := directory :: state.directories }

def State.withStatus (state : State) (directory : BaseName) (file : StatusFile) : State :=
  { state with status := fun other => if other = directory then some file else state.status other }

def State.withConfig (state : State) (directory : BaseName) (file : ConfigFile) : State :=
  { state with config := fun other => if other = directory then some file else state.config other }

def State.withDirectories (state : State) (directories : List BaseName) : State :=
  directories.foldl State.withDirectory state

/-- The files that an archive has, and otherwise those that were there. -/
def Archive.statusAfter (archive : Archive) (state : State) (directory : BaseName) :
    Option StatusFile :=
  (archive.status.lookup directory).getD (state.status directory)

def Archive.configAfter (archive : Archive) (state : State) (directory : BaseName) :
    Option ConfigFile :=
  (archive.config.lookup directory).getD (state.config directory)

def State.extractall (state : State) (archive : Archive) : State :=
  { state.withDirectories archive.directories with
    status := archive.statusAfter state
    config := archive.configAfter state }

def State.names (state : State) : List BaseName := state.slurm.map SlurmJob.name

def State.withSlurm (state : State) (slurm : List SlurmJob) : State := { state with slurm := slurm }

def State.makeTrainingDirectory (state : State) (trainArgs : TrainArgs) : State :=
  ((state.withDirectory trainArgs.jobDirectory).withConfig trainArgs.jobDirectory
    .unreadable).takes (.dumpConfig trainArgs)

def State.getRunningJobs (state : State) (slurmJobNames : List (List Char)) :
    List BaseName → State
  | [] => state.takes .idle
  | path :: paths =>
      match state.status path with
      | none => state.takes (.getRunningJobs slurmJobNames paths)
      | some .unreadable => state.takes .idle
      | some (.readable jobStatus) =>
          if jobStatus.status = .training ∨ jobStatus.status = .queued then
            if slurmJobNames.contains path.chars then
              state.takes (.getRunningJobs slurmJobNames paths)
            else state.takes (.restartJob path slurmJobNames paths)
          else state.takes (.getRunningJobs slurmJobNames paths)

def State.restartJob (state : State) (job : BaseName) (slurmJobNames : List (List Char))
    (paths : List BaseName) : State :=
  match state.config job with
  | some (.readable trainArgs) =>
      state.takes (.createRunCommand trainArgs (.restart slurmJobNames paths))
  | _ => state.takes .idle

/-- `write_job_status` up to the merge with what the file holds, which may not be loadable. -/
def State.readStatus (state : State) (trainArgs : TrainArgs) (jobStatus : JobStatus)
    (next : Next) (caller : Caller) : State :=
  match state.status trainArgs.jobDirectory with
  | none => state.takes (.openStatus trainArgs jobStatus next caller)
  | some (.readable existing) =>
      state.takes (.openStatus trainArgs (existing.merge jobStatus) next caller)
  | some .unreadable => state.takes .idle

def Caller.task (trainArgs : TrainArgs) : Caller → Task
  | .launch => .getExistingJobInfo trainArgs
  | .restart slurmJobNames paths => .getRunningJobs slurmJobNames paths

def Next.task (trainArgs : TrainArgs) (caller : Caller) : Next → Task
  | .sbatch => .runSbatch trainArgs caller
  | .jobId stdout => .getJobId trainArgs stdout caller
  | .finish => caller.task trainArgs

def RunCommand.job (command : RunCommand) (id : JobId) (partition : Partition)
    (columns : Columns) : SlurmJob where
  id := id
  partition := partition
  name := command.jobName
  state := .pending
  columns := columns

def State.submit (state : State) (trainArgs : TrainArgs) (caller : Caller) (id : JobId)
    (partition : Partition) (columns : Columns) : State :=
  (state.withSlurm (state.slurm ++
    [(createSlurmRunCommand trainArgs).job id partition columns])).takes
      (.getJobId trainArgs (submittedOutput id) caller)

def queuedAt (time : Nat) : JobStatus := ⟨.queued, some time, none, none⟩

def failedWith (output : List Char) : JobStatus := ⟨.failed, none, none, some output⟩

def queuedAs (jobId : List Char) : JobStatus := ⟨.queued, none, some jobId, none⟩

/-- `re.search` gives `None`, of which there is no group, when the output has no id. -/
def State.getJobId (state : State) (trainArgs : TrainArgs) (stdout : List Char)
    (caller : Caller) : State :=
  match getJobIdFromSbatchOutput stdout with
  | some jobId => state.takes (.readStatus trainArgs (queuedAs jobId) .finish caller)
  | none => state.takes .idle

/-- One operation of what the event loop runs. An answer to another question is none. -/
def State.proceed (state : State) (answer : Answer) : State :=
  match state.task, answer with
  | _, .raised => state.takes .idle
  | .waitForSlurm trainArgs, .done => state.takes (.jobAlreadyExists trainArgs)
  | .jobAlreadyExists trainArgs, .done =>
      if (state.status trainArgs.jobDirectory).isSome then
        state.takes (.getExistingJobInfo trainArgs)
      else state.takes (.makeTrainingDirectory trainArgs)
  | .makeTrainingDirectory trainArgs, .done => state.makeTrainingDirectory trainArgs
  | .dumpConfig trainArgs, .written file => state.withConfig trainArgs.jobDirectory file
  | .dumpConfig trainArgs, .done =>
      (state.withConfig trainArgs.jobDirectory (.readable trainArgs)).takes
        (.createRunCommand trainArgs .launch)
  | .getSlurmJobs, .done => state.takes (.listdir (getSlurmJobs (squeueOutput state.slurm)))
  | .listdir slurmJobNames, .entries paths =>
      if paths.Perm state.directories then state.takes (.getRunningJobs slurmJobNames paths)
      else state
  | .getRunningJobs slurmJobNames paths, .done => state.getRunningJobs slurmJobNames paths
  | .restartJob job slurmJobNames paths, .done => state.restartJob job slurmJobNames paths
  | .createRunCommand trainArgs caller, .now time =>
      state.takes (.readStatus trainArgs (queuedAt time) .sbatch caller)
  | .readStatus trainArgs jobStatus next caller, .done =>
      state.readStatus trainArgs jobStatus next caller
  | .openStatus trainArgs jobStatus next caller, .done =>
      (state.withStatus trainArgs.jobDirectory .unreadable).takes
        (.dumpStatus trainArgs jobStatus next caller)
  | .dumpStatus trainArgs jobStatus next caller, .done =>
      (state.withStatus trainArgs.jobDirectory (.readable jobStatus)).takes
        (next.task trainArgs caller)
  | .runSbatch trainArgs caller, .submitted id partition columns =>
      state.submit trainArgs caller id partition columns
  | .runSbatch trainArgs caller, .refused stdout stderr =>
      state.takes (.readStatus trainArgs (failedWith (stdout ++ stderr)) (.jobId stdout) caller)
  | .getJobId trainArgs stdout caller, .done => state.getJobId trainArgs stdout caller
  | .getExistingJobInfo _, .done => state.takes .idle
  | _, _ => state

def SlurmJob.changed (state : JobState) (columns : Columns) (job : SlurmJob) : SlurmJob :=
  { job with state := state, columns := columns }

/-- A task of the API begins when the event loop is free. -/
def State.begins (state : State) (task : Task) : State :=
  match state.task with
  | .idle => state.takes task
  | _ => state

def step (state : State) : Event → State
  | .upload directory archive =>
      match state.task with
      | .idle => (state.withDirectory directory).extractall archive
      | _ => state
  | .launch trainArgs => state.begins (.waitForSlurm trainArgs)
  | .restart => state.begins .getSlurmJobs
  | .proceeds answer => state.proceed answer
  | .statusWritten directory file =>
      if (state.status directory).isSome ∨ directory ∈ state.names then
        state.withStatus directory file
      else state
  | .jobChanges index jobState columns =>
      state.withSlurm (state.slurm.modify index (SlurmJob.changed jobState columns))
  | .jobEnds index => state.withSlurm (state.slurm.eraseIdx index)

end Steps

end ScalarLM.Slurm
