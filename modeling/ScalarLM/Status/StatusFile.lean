import Mathlib.Data.UInt
import ScalarLM.Lib.Dict
import ScalarLM.Lib.OpenFile
import ScalarLM.Lib.Transition

/-! The processes that read and write `status.json` of a job: the server and the ranks. -/

namespace ScalarLM.Status

open OpenFile

abbrev Key := List Char

abbrev JobStatus (Value : Type) := Dict Key Value

/-- JSON texts of dictionaries. Loading fails on a text that is broken off. -/
structure JsonFormat (Value : Type) where
  string : List Char → Value
  dumps : JobStatus Value → List UInt8
  loads : List UInt8 → Option (JobStatus Value)
  loads_dumps : ∀ jobStatus, loads (dumps jobStatus) = some jobStatus
  loads_front : ∀ jobStatus front, front <+: dumps jobStatus → front ≠ dumps jobStatus →
    loads front = none

inductive TrainingJobStatus where
  | queued
  | training
  | completed
  | failed
  deriving DecidableEq

def TrainingJobStatus.chars : TrainingJobStatus → List Char
  | .queued => ['Q', 'U', 'E', 'U', 'E', 'D']
  | .training => ['T', 'R', 'A', 'I', 'N', 'I', 'N', 'G']
  | .completed => ['C', 'O', 'M', 'P', 'L', 'E', 'T', 'E', 'D']
  | .failed => ['F', 'A', 'I', 'L', 'E', 'D']

inductive Process where
  | server
  | rank (rank : Nat)
  deriving DecidableEq

/-- Where a process is in `write_job_status` or `update_status`. -/
inductive Phase (Value : Type) where
  | idle
  | called (status : TrainingJobStatus) (info : List (Key × Value))
  /-- The server has seen that there is a file. -/
  | exists (jobStatus : JobStatus Value)
  /-- The file has been read, and the new contents are known. -/
  | merged (contents : JobStatus Value)
  /-- The file is open for writing, and the contents are in its buffer. -/
  | opened (writer : Writer UInt8)

structure State (Value : Type) where
  files : Files UInt8
  phases : Process → Phase Value

inductive Event (Value : Type) where
  | call (process : Process) (status : TrainingJobStatus) (info : List (Key × Value))
  | proceed (process : Process)
  /-- A part of the buffer gets to the file. -/
  | spill (process : Process) (count : Nat)

section Updates

variable {Value : Type} (format : JsonFormat Value)

def statusKey : Key := ['s', 't', 'a', 't', 'u', 's']

def update (jobStatus : JobStatus Value) (info : List (Key × Value)) : JobStatus Value :=
  info.foldl (fun jobStatus entry => jobStatus.set entry.1 entry.2) jobStatus

def newJobStatus (status : TrainingJobStatus) (extraInfo : List (Key × Value)) :
    JobStatus Value :=
  update (Dict.empty.set statusKey (format.string status.chars)) extraInfo

def load (files : Files UInt8) : Option (JobStatus Value) :=
  files.entry.bind fun file => format.loads (files.content file)

def unknown : JobStatus Value :=
  Dict.empty.set statusKey (format.string ['u', 'n', 'k', 'n', 'o', 'w', 'n'])

/-- Any exception while the file is opened and loaded gives a fresh dictionary. -/
def getStatus (files : Files UInt8) : JobStatus Value :=
  match load format files with
  | some jobStatus => jobStatus
  | none => unknown format

def updatedStatus (files : Files UInt8) (status : TrainingJobStatus)
    (metadata : List (Key × Value)) : JobStatus Value :=
  update ((getStatus format files).set statusKey (format.string status.chars)) metadata

def State.put (state : State Value) (files : Files UInt8) (process : Process)
    (phase : Phase Value) : State Value where
  files := files
  phases := Function.update state.phases process phase

/-- The next operation on the file. Where the server loads what is no JSON it raises. -/
def State.proceed (state : State Value) (process : Process) : State Value :=
  match process, state.phases process with
  | .server, .called status extraInfo =>
      match state.files.entry with
      | none => state.put state.files .server (.merged (newJobStatus format status extraInfo))
      | some _ => state.put state.files .server (.exists (newJobStatus format status extraInfo))
  | .server, .exists jobStatus =>
      match load format state.files with
      | none => state.put state.files .server .idle
      | some existing => state.put state.files .server (.merged (update existing jobStatus.entries))
  | .rank rank, .called status metadata =>
      state.put state.files (.rank rank)
        (.merged (updatedStatus format state.files status metadata))
  | process, .merged contents =>
      let opened := state.files.openWrite
      state.put opened.1 process (.opened (opened.2.write (format.dumps contents)))
  | process, .opened writer => state.put (state.files.close writer) process .idle
  | _, _ => state

def step (state : State Value) : Event Value → State Value
  | .call process status info =>
      match state.phases process with
      | .idle => state.put state.files process (.called status info)
      | _ => state
  | .proceed process => state.proceed format process
  | .spill process count =>
      match state.phases process with
      | .opened writer =>
          let spilled := state.files.spill writer count
          state.put spilled.1 process (.opened spilled.2)
      | _ => state

def State.initial : State Value where
  files := ⟨none, fun _ => [], 0⟩
  phases _ := .idle

end Updates

end ScalarLM.Status
