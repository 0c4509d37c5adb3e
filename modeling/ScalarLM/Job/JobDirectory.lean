import ScalarLM.Job.ListModels
import ScalarLM.Slurm.JobLaunch
import ScalarLM.Status.StatusFile

/-! The training job directory, and everything that writes or reads a `status.json` in it: the
uploads and launches of `/train`, the training processes and the listings. -/

namespace ScalarLM.Listings

open Json Utf8 OpenFile Status

abbrev JobStatus := List (List Nat × Value)

section Texts

variable (python : PythonNumbers)

def escapePoint (point : Nat) : List Char :=
  if point < 128 then escape (Char.ofNat point)
  else if point < 65536 then unicodeEscape point
  else unicodeEscape (55296 + (point - 65536) / 1024) ++
    unicodeEscape (56320 + (point - 65536) % 1024)

def dumpString (text : List Nat) : List Char := '"' :: (text.flatMap escapePoint ++ ['"'])

mutual

def dumps : Value → List Char
  | .null => ['n', 'u', 'l', 'l']
  | .bool true => ['t', 'r', 'u', 'e']
  | .bool false => ['f', 'a', 'l', 's', 'e']
  | .int number => (toString number).toList
  | .float text => python.floatRepr text
  | .string text => dumpString text
  | .array elements => '[' :: dumpElements elements
  | .object members => '{' :: dumpMembers members

def dumpElements : List Value → List Char
  | [] => [']']
  | [element] => dumps element ++ [']']
  | element :: next :: rest => dumps element ++ ',' :: ' ' :: dumpElements (next :: rest)

def dumpMembers : List (List Nat × Value) → List Char
  | [] => ['}']
  | [(key, value)] => dumpString key ++ ':' :: ' ' :: (dumps value ++ ['}'])
  | (key, value) :: next :: rest =>
      dumpString key ++ ':' :: ' ' :: (dumps value ++ ',' :: ' ' :: dumpMembers (next :: rest))

end

def text (chars : List Char) : Value := .string (codePoints chars)

def merge (first second : JobStatus) : JobStatus :=
  second.foldl (fun members member => setMember member.1 member.2 members) first

def jobIdKey : List Char := ['j', 'o', 'b', '_', 'i', 'd']

def outputKey : List Char := ['o', 'u', 't', 'p', 'u', 't']

def newJobStatus (status : TrainingJobStatus) (extraInfo : JobStatus) : JobStatus :=
  merge [(codePoints statusKey, text status.chars)] extraInfo

end Texts

section States

/-- A `status.json`: a file, or something else that cannot be opened. -/
inductive StatusEntry where
  | file (number : Nat)
  | unopenable

/-- A member of an archive, by what extracting it does to the `status.json` of the job. -/
inductive Member where
  | other
  | statusFile (bytes : Bytes)
  /-- A link or a directory takes the place of `status.json`. -/
  | statusPlaced (entry : Option StatusEntry)

/-- Where a process is in `write_job_status` or `update_status`. -/
inductive Writing where
  | called (jobStatus : JobStatus)
  /-- `os.path.exists` has found the file. -/
  | exists (jobStatus : JobStatus)
  | merged (jobStatus : JobStatus)
  | opened (writer : Writer UInt8)

inductive Next where
  | sbatch
  | jobId (stdout : List Char)
  | finish

/-- Where a request to `/train` is, in `upload_training_data` and `launch_training_job`. -/
inductive Stage where
  | receiving (archive : List Member)
  | extracting (archive : List Member)
  | extractingStatus (archive : List Member) (writer : Writer UInt8)
  | copyMl
  | jobAlreadyExists
  | makeTrainingDirectory
  | createSlurmRunCommand
  | writeJobStatus (writing : Writing) (next : Next)
  | runSbatch
  | getJobId (stdout : List Char)
  | getExistingJobInfo

inductive Process where
  | request (job : JobName) (stage : Stage)
  | training (job : JobName) (writing : Writing)
  | listing (listing : Listing)

structure State where
  /-- Whether there is a training job directory. -/
  made : Bool
  jobs : List JobName
  entry : JobName → Option StatusEntry
  content : Nat → Bytes
  fresh : Nat
  processes : Nat → Option Process

def State.initial (made : Bool) : State where
  made := made
  jobs := []
  entry _ := none
  content _ := []
  fresh := 0
  processes _ := none

/-- What the surroundings answer to the next operation of a process. -/
inductive Answer where
  | done
  /-- `time.time`, by its text. -/
  | now (time : List Char)
  | sbatch (failed : Bool) (stdout stderr : List Char)

inductive Event where
  /-- A request to `/train`, of which the job and the archive are what will be received. -/
  | train (id : Nat) (job : JobName) (archive : List Member)
  /-- A training process calls `update_status`. -/
  | updateStatus (id : Nat) (job : JobName) (status : TrainingJobStatus) (metadata : JobStatus)
  /-- A listing begins; the jobs come in the order of `os.listdir`. -/
  | list (id : Nat) (task : ListingTask) (listdir : List JobName)
  | proceed (id : Nat) (answer : Answer)
  /-- A part of the buffer of a file gets to the file. -/
  | spill (id : Nat) (count : Nat)
  /-- A process is interrupted: an exception, a client that disconnects, a kill. -/
  | stop (id : Nat)

variable (state : State)

def State.read (job : JobName) : StatusRead :=
  match state.entry job with
  | none => .missing
  | some .unopenable => .unopenable
  | some (.file number) => .content (state.content number)

def State.files (job : JobName) : Files UInt8 where
  entry := match state.entry job with
    | some (.file number) => some number
    | _ => none
  content := state.content
  fresh := state.fresh

def State.withEntry (job : JobName) (entry : Option StatusEntry) : State :=
  { state with entry := Function.update state.entry job entry }

def State.withContents (files : Files UInt8) : State :=
  { state with content := files.content, fresh := files.fresh }

def State.becomes (id : Nat) (process : Option Process) : State :=
  { state with processes := Function.update state.processes id process }

def State.makedirs (job : JobName) : State :=
  { state with
    made := true
    jobs := if job ∈ state.jobs then state.jobs else job :: state.jobs }

/-- `open(..., "w")` of the `status.json` of a job and a `write` to it, unless that raises. -/
def State.openStatus (job : JobName) (bytes : Bytes) : Option (State × Writer UInt8) :=
  if job ∈ state.jobs then
    match state.entry job with
    | some .unopenable => none
    | _ =>
        let opened := (state.files job).openWrite
        some ((state.withEntry job (opened.1.entry.map .file)).withContents opened.1,
          opened.2.write bytes)
  else none

def State.close (writer : Writer UInt8) : State :=
  state.withContents ((state.files []).close writer)

end States

section Steps

variable (python : PythonNumbers)

def loadStatus (read : StatusRead) : Option JobStatus :=
  match read with
  | .content bytes =>
      match jsonLoad bytes with
      | .ok (.object members) => some members
      | _ => none
  | _ => none

def unknown : JobStatus := [(codePoints statusKey, text ['u', 'n', 'k', 'n', 'o', 'w', 'n'])]

/-- `get_status`: a fresh dictionary after any exception. What is loaded and is no dictionary
cannot be assigned to, and none is returned for it. -/
def getStatus (read : StatusRead) : Option JobStatus :=
  match read with
  | .content bytes =>
      match jsonLoad bytes with
      | .ok (.object members) => some members
      | .ok _ => none
      | .error _ => some unknown
  | _ => some unknown

def updatedStatus (current : JobStatus) (status : TrainingJobStatus) (metadata : JobStatus) :
    JobStatus :=
  merge (setMember (codePoints statusKey) (text status.chars) current) metadata

def statusBytes (jobStatus : JobStatus) : Bytes := encodeUtf8 (dumps python (.object jobStatus))

/-- The next operation of a `write_job_status`; `proceed` says how the process goes on with it,
`finished` how after it. A process that raises is gone. -/
def State.write (state : State) (job : JobName) (id : Nat) (proceed : Writing → Process)
    (finished : Option Process) : Writing → State
  | .called jobStatus =>
      match state.entry job with
      | none => state.becomes id (proceed (.merged jobStatus))
      | some _ => state.becomes id (proceed (.exists jobStatus))
  | .exists jobStatus =>
      match loadStatus (state.read job) with
      | none => state.becomes id none
      | some existing => state.becomes id (proceed (.merged (merge existing jobStatus)))
  | .merged jobStatus =>
      match state.openStatus job (statusBytes python jobStatus) with
      | none => state.becomes id none
      | some (opened, writer) => opened.becomes id (proceed (.opened writer))
  | .opened writer => (state.close writer).becomes id finished

def afterWrite : Next → Stage
  | .sbatch => .runSbatch
  | .jobId stdout => .getJobId stdout
  | .finish => .getExistingJobInfo

/-- The next operation of a request. Where the answer does not fit it the request raises. -/
def State.proceedRequest (state : State) (id : Nat) (job : JobName) (answer : Answer) :
    Stage → State
  | .receiving archive =>
      (state.makedirs job).becomes id (some (.request job (.extracting archive)))
  | .extracting (.other :: archive) =>
      state.becomes id (some (.request job (.extracting archive)))
  | .extracting (.statusFile bytes :: archive) =>
      match state.openStatus job bytes with
      | none => state.becomes id none
      | some (opened, writer) =>
          opened.becomes id (some (.request job (.extractingStatus archive writer)))
  | .extracting (.statusPlaced entry :: archive) =>
      (state.withEntry job entry).becomes id (some (.request job (.extracting archive)))
  | .extracting [] => state.becomes id (some (.request job .copyMl))
  | .extractingStatus archive writer =>
      (state.close writer).becomes id (some (.request job (.extracting archive)))
  | .copyMl => state.becomes id (some (.request job .jobAlreadyExists))
  | .jobAlreadyExists =>
      match state.entry job with
      | none => state.becomes id (some (.request job .makeTrainingDirectory))
      | some _ => state.becomes id (some (.request job .getExistingJobInfo))
  | .makeTrainingDirectory =>
      (state.makedirs job).becomes id (some (.request job .createSlurmRunCommand))
  | .createSlurmRunCommand =>
      match answer with
      | .now time =>
          let jobStatus := newJobStatus .queued [(codePoints startTimeKey, .float time)]
          state.becomes id (some (.request job (.writeJobStatus (.called jobStatus) .sbatch)))
      | _ => state.becomes id none
  | .writeJobStatus writing next =>
      state.write python job id (fun writing => .request job (.writeJobStatus writing next))
        (some (.request job (afterWrite next))) writing
  | .runSbatch =>
      match answer with
      | .sbatch true stdout stderr =>
          let jobStatus := newJobStatus .failed [(codePoints outputKey, text (stdout ++ stderr))]
          state.becomes id
            (some (.request job (.writeJobStatus (.called jobStatus) (.jobId stdout))))
      | .sbatch false stdout _ => state.becomes id (some (.request job (.getJobId stdout)))
      | _ => state.becomes id none
  | .getJobId stdout =>
      match Slurm.getJobIdFromSbatchOutput stdout with
      | none => state.becomes id none
      | some jobId =>
          let jobStatus := newJobStatus .queued [(codePoints jobIdKey, text jobId)]
          state.becomes id (some (.request job (.writeJobStatus (.called jobStatus) .finish)))
  | .getExistingJobInfo => state.becomes id none

def State.proceed (state : State) (id : Nat) (answer : Answer) : State :=
  match state.processes id with
  | none => state
  | some (.request job stage) => state.proceedRequest python id job answer stage
  | some (.training job writing) =>
      state.write python job id (fun writing => .training job writing) none writing
  | some (.listing listing) =>
      state.becomes id (some (.listing (listing.proceed python state.read)))

def Process.writer? : Process → Option (Writer UInt8)
  | .request _ (.extractingStatus _ writer) => some writer
  | .request _ (.writeJobStatus (.opened writer) _) => some writer
  | .training _ (.opened writer) => some writer
  | _ => none

def Process.withWriter (writer : Writer UInt8) : Process → Process
  | .request job (.extractingStatus archive _) => .request job (.extractingStatus archive writer)
  | .request job (.writeJobStatus (.opened _) next) =>
      .request job (.writeJobStatus (.opened writer) next)
  | .training job (.opened _) => .training job (.opened writer)
  | process => process

def step (state : State) : Event → State
  | .train id job archive =>
      match state.processes id with
      | none => state.becomes id (some (.request job (.receiving archive)))
      | some _ => state
  | .updateStatus id job status metadata =>
      match state.processes id with
      | none =>
          match getStatus (state.read job) with
          | none => state
          | some current =>
              state.becomes id (some (.training job (.merged
                (updatedStatus current status metadata))))
      | some _ => state
  | .list id task listdir =>
      match state.processes id with
      | none =>
          if state.made = false then
            state.becomes id (some (.listing (.begin task none)))
          else if listdir.Perm state.jobs then
            state.becomes id (some (.listing (.begin task (some listdir))))
          else state
      | some _ => state
  | .proceed id answer => state.proceed python id answer
  | .spill id count =>
      match state.processes id with
      | none => state
      | some process =>
          match process.writer? with
          | none => state
          | some writer =>
              let spilled := (state.files []).spill writer count
              (state.withContents spilled.1).becomes id (some (process.withWriter spilled.2))
  | .stop id => state.becomes id none

end Steps

end ScalarLM.Listings
