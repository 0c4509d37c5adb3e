import ScalarLM.Slurm.OneJob

/-! The training processes of the jobs that run, with their calls of `update_status`, next to
the event loop of the API and to Slurm. -/

namespace ScalarLM.Slurm

def TrainingJobStatus.terminal : TrainingJobStatus → Bool
  | .completed => true
  | .failed => true
  | .queued => false
  | .training => false

inductive Update where
  | begins
  | history
  | completed
  | failed

def Update.status : Update → TrainingJobStatus
  | .begins => .training
  | .history => .training
  | .completed => .completed
  | .failed => .failed

inductive Stage where
  | read
  | opens (current : Option JobStatus)
  | writes (current : Option JobStatus)

/-- Where a process is in `main.py`. -/
inductive Phase where
  /-- In front of the first call of `train_loop`. -/
  | starting
  /-- In the training loop. -/
  | training
  /-- In front of the last call of `train_loop`. -/
  | trained
  /-- In front of the call that handles an exception. -/
  | failing
  | updating (update : Update) (stage : Stage)
  /-- The last call of `train_loop` is over, and `main` has not ended. -/
  | finished
  | exited

structure Cluster where
  server : State
  /-- The processes of the job of a directory by rank; none, when they have not been started. -/
  processes : BaseName → List Phase

inductive Action where
  | proceed
  /-- `update_history` at the end of a step. -/
  | history
  /-- The training loop is over. -/
  | trained
  | raised
  /-- The handler raises a `NameError` where the process is, for its `logger` is not defined. In a
  call of `update_status` that may be inside the `try` of `get_status` or of `save_status`, or
  behind `f.write` in its `with`. In `train_loop`'s `finished` it may be inside the `try` of
  `main`. -/
  | sigcont (inside : Bool)
  /-- The process ends, or is killed. -/
  | exits

inductive ClusterEvent where
  | server (event : Event)
  /-- `mpirun` starts the processes of a job that runs. -/
  | jobStarts (directory : BaseName) (worldSize : Nat)
  | process (directory : BaseName) (rank : Nat) (action : Action)
  /-- What two processes have written over each other is no JSON. -/
  | garbled (directory : BaseName)

section Processes

/-- What `update_status` saves; `current` is nothing when `get_status` did not get any. -/
def Update.contents (update : Update) : Option JobStatus → JobStatus
  | some current => current.merge ⟨update.status, none, none, none⟩
  | none => ⟨update.status, none, none, none⟩

def getStatus : Option StatusFile → Option JobStatus
  | some (.readable jobStatus) => some jobStatus
  | _ => none

def Update.next : Update → Phase
  | .begins => .training
  | .history => .training
  | .completed => .finished
  | .failed => .exited

/-- Where an exception in a call leads: `main` handles those of `train_loop` only. -/
def Update.raised : Update → Phase
  | .begins => .failing
  | .history => .failing
  | .completed => .failing
  | .failed => .exited

/-- Where the exception of the signal handler leads. `get_status` catches it and returns no
status, and `save_status` catches it and returns without having opened the file. -/
def Phase.interrupted (inside : Bool) : Phase → Phase
  | .starting => .failing
  | .training => .failing
  | .trained => .failing
  | .failing => .exited
  | .updating update .read => if inside then .updating update (.opens none) else update.raised
  | .updating update (.opens _) => if inside then update.next else update.raised
  | .updating update (.writes _) => update.raised
  | .finished => if inside then .failing else .exited
  | .exited => .exited

def Phase.act (rank : Nat) (file : Option StatusFile) : Phase → Action → Phase
  | .exited, _ => .exited
  | phase, .sigcont inside => phase.interrupted inside
  | _, .exits => .exited
  | .starting, .proceed => .updating .begins .read
  | .training, .history => if rank = 0 then .updating .history .read else .training
  | .training, .trained => .trained
  | .trained, .proceed => .updating .completed .read
  | .failing, .proceed => .updating .failed .read
  | .updating update .read, .proceed => .updating update (.opens (getStatus file))
  | .updating update (.opens current), .proceed => .updating update (.writes current)
  | .updating update (.writes _), .proceed => update.next
  | .starting, .raised => .failing
  | .training, .raised => .failing
  | .trained, .raised => .failing
  | .updating update _, .raised => update.raised
  | phase, _ => phase

/-- What the next operation of a process does to the file. When the handler interrupts the
process behind `f.write`, the `with` closes the file and writes what is in the buffer. -/
def Phase.written : Phase → Action → Option StatusFile
  | .updating _ (.opens _), .proceed => some .unreadable
  | .updating update (.writes current), .proceed => some (.readable (update.contents current))
  | .updating update (.writes current), .sigcont true =>
      some (.readable (update.contents current))
  | _, _ => none

def Cluster.withProcesses (cluster : Cluster) (directory : BaseName) (phases : List Phase) :
    Cluster :=
  { cluster with processes := Function.update cluster.processes directory phases }

def Cluster.act (cluster : Cluster) (directory : BaseName) (rank : Nat) (action : Action) :
    Cluster :=
  match (cluster.processes directory)[rank]? with
  | none => cluster
  | some phase =>
      let moved := cluster.withProcesses directory ((cluster.processes directory).set rank
        (phase.act rank (cluster.server.status directory) action))
      match phase.written action with
      | none => moved
      | some file => { moved with server := step cluster.server (.statusWritten directory file) }

/-- A job that leaves the queue has no process any more. -/
def Cluster.jobEnds (cluster : Cluster) (index : Nat) : Cluster :=
  match cluster.server.slurm[index]? with
  | none => cluster
  | some job =>
      { cluster.withProcesses job.name [] with server := step cluster.server (.jobEnds index) }

def State.runs (state : State) (directory : BaseName) : Bool :=
  state.slurm.any fun job => decide (job.name = directory) && decide (job.state = .running)

/-- The status files are written by the event loop and by the processes that are modelled. -/
def clusterStep (cluster : Cluster) : ClusterEvent → Cluster
  | .server (.statusWritten _ _) => cluster
  | .server (.jobEnds index) => cluster.jobEnds index
  | .server event => { cluster with server := step cluster.server event }
  | .jobStarts directory worldSize =>
      match cluster.processes directory with
      | [] =>
          if cluster.server.runs directory then
            cluster.withProcesses directory (List.replicate worldSize .starting)
          else cluster
      | _ => cluster
  | .process directory rank action => cluster.act directory rank action
  | .garbled directory =>
      { cluster with server := step cluster.server (.statusWritten directory .unreadable) }

def Cluster.initial : Cluster := ⟨.initial, fun _ => []⟩

end Processes

section Writes

/-- The status that a step writes, and the directory it writes it in. -/
def statusWrite (cluster : Cluster) : ClusterEvent → Option (BaseName × TrainingJobStatus)
  | .server (.proceeds .done) =>
      match cluster.server.task with
      | .dumpStatus trainArgs jobStatus _ _ => some (trainArgs.jobDirectory, jobStatus.status)
      | _ => none
  | .process directory rank action =>
      match (cluster.processes directory)[rank]? with
      | none => none
      | some phase =>
          match phase.written action with
          | some (.readable jobStatus) => some (directory, jobStatus.status)
          | _ => none
  | _ => none

def submission (cluster : Cluster) : ClusterEvent → Option BaseName
  | .server (.proceeds _) =>
      match cluster.server.task with
      | .runSbatch trainArgs _ => some trainArgs.jobDirectory
      | _ => none
  | _ => none

end Writes

end ScalarLM.Slurm
