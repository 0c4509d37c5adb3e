import Mathlib.Data.List.Sort
import ScalarLM.Lib.JsonText
import ScalarLM.Lib.LineFormat
import ScalarLM.Lib.Utf8
import ScalarLM.Slurm.Squeue

/-! The log lines of a training job as a stream of JSON objects, and the client that reads it. -/

namespace ScalarLM.Logs

open Json Utf8

section Generator

/-- A file of a job directory. The lines are as they are read, with their newlines. -/
structure JobFile where
  name : List Char
  lines : List (List Char)

structure LogLine where
  line : List Char
  lineNumber : Nat

def rstrip (line : List Char) : List Char := (line.reverse.dropWhile Slurm.isSpace).reverse

def isLogName (name : List Char) : Bool :=
  ['s', 'l', 'u', 'r', 'm', '-'].isPrefixOf name && ['.', 'o', 'u', 't'].isSuffixOf name

def isLogFile (file : JobFile) : Bool := isLogName file.name

/-- The loop over the lines of one file. The line number goes on in the next one. -/
def generateFile (startingLineNumber : Int) : Nat → List (List Char) → List LogLine × Nat
  | lineNumber, [] => ([], lineNumber)
  | lineNumber, line :: lines =>
      if (lineNumber : Int) < startingLineNumber then
        generateFile startingLineNumber (lineNumber + 1) lines
      else
        let later := generateFile startingLineNumber (lineNumber + 1) lines
        (⟨rstrip line, lineNumber⟩ :: later.1, later.2)

def generate (startingLineNumber : Int) : Nat → List JobFile → List LogLine
  | _, [] => []
  | lineNumber, file :: files =>
      let yielded := generateFile startingLineNumber lineNumber file.lines
      yielded.1 ++ generate startingLineNumber yielded.2 files

/-- What is yielded for a job directory. Without a log file the request fails. -/
def trainingLogsGenerator (jobDirectory : List JobFile) (startingLineNumber : Int) :
    Option (List LogLine) :=
  let logFiles := (jobDirectory.filter isLogFile).mergeSort fun file next =>
    !decide (next.name < file.name)
  match logFiles with
  | [] => none
  | _ => some (generate startingLineNumber 0 logFiles)

def logLine? (startingLineNumber : Int) (numbered : List Char × Nat) : Option LogLine :=
  if (numbered.2 : Int) < startingLineNumber then none else some ⟨rstrip numbered.1, numbered.2⟩

theorem generateFile_lines (startingLineNumber : Int) (lineNumber : Nat)
    (lines : List (List Char)) :
    generateFile startingLineNumber lineNumber lines =
      ((lines.zipIdx lineNumber).filterMap (logLine? startingLineNumber),
        lineNumber + lines.length) := by
  induction lines generalizing lineNumber with
  | nil => rfl
  | cons line lines ih =>
      rw [generateFile, ih, List.zipIdx_cons, List.filterMap_cons, List.length_cons, logLine?]
      split <;> simp only [Nat.add_assoc, Nat.add_comm 1]

theorem filterMap_logLine? (startingLineNumber : Int) (lines : List (List Char)) (start : Nat) :
    (lines.zipIdx start).filterMap (logLine? startingLineNumber) =
      ((lines.zipIdx start).map fun numbered =>
        (⟨rstrip numbered.1, numbered.2⟩ : LogLine)).drop (startingLineNumber.toNat - start) := by
  induction lines generalizing start with
  | nil => simp
  | cons line lines ih =>
      rw [List.zipIdx_cons, List.filterMap_cons, logLine?, ih, List.map_cons]
      split
      · rename_i skipped
        split at skipped
        · rename_i before
          have further : startingLineNumber.toNat - start =
              (startingLineNumber.toNat - (start + 1)) + 1 := by omega
          rw [further, List.drop_succ_cons]
        · cases skipped
      · rename_i log yielded
        split at yielded
        · cases yielded
        · rename_i reached
          cases yielded
          have here : startingLineNumber.toNat - start = 0 := by omega
          have next : startingLineNumber.toNat - (start + 1) = 0 := by omega
          rw [here, next, List.drop_zero, List.drop_zero]

def LogLine.members (log : LogLine) : List (List Char × Entry) :=
  [(['l', 'i', 'n', 'e'], .text log.line),
    (['l', 'i', 'n', 'e', '_', 'n', 'u', 'm', 'b', 'e', 'r'], .number log.lineNumber)]

def LogLine.object (log : LogLine) : Value :=
  .object (log.members.map fun member => (member.1.map Char.toNat, member.2.value))

def LogLine.write (log : LogLine) : List Char := dumps log.members

end Generator

section Transport

def streamBody (logs : List LogLine) : List UInt8 :=
  logs.flatMap fun log => encodeUtf8 (log.write ++ ['\n'])

def getTrainingLogs (jobDirectory : List JobFile) (startingLineNumber : Int) :
    Option (List UInt8) :=
  (trainingLogsGenerator jobDirectory startingLineNumber).map streamBody

end Transport

section Client

inductive FirstLine : List Char → List Char → Prop where
  | ended (body rest : List Char) (oneLine : '\n' ∉ body) : FirstLine (body ++ ['\n']) rest
  | last (body : List Char) (oneLine : '\n' ∉ body) (filled : body ≠ []) : FirstLine body []

/-- A line without the marks that a reader drops from the beginning of one. -/
def Unmarked (line : List Char) : Prop :=
  line.head? ≠ some '\x1e' ∧ line.head? ≠ some '\ufeff'

/-- What a loop over a `jsonlines.Reader` of a text gets: a value for each line, as far as one
that is no JSON or `null`, where the reader raises an exception. -/
structure ReadsJsonLines (objects : List Char → List Value) : Prop where
  exhausted : objects [] = []
  yields : ∀ line rest value, FirstLine line rest → Unmarked line → loads line = some value →
    value ≠ .null → objects (line ++ rest) = value :: objects rest
  raises : ∀ line rest, FirstLine line rest → Unmarked line →
    loads line = none ∨ loads line = some .null → objects (line ++ rest) = []

/-- The loop over the chunks. A chunk that is no UTF-8 is an exception that is not caught. One of
the reader leaves in the buffer what was read of the chunk before it. -/
def readLogStream (objects : List Char → List Value) (objectBuffer : List Value) :
    List (List UInt8) → Option (List Value)
  | [] => some objectBuffer
  | chunk :: chunks =>
      match decodeUtf8 chunk with
      | none => none
      | some text => readLogStream objects (objectBuffer ++ objects text) chunks

end Client

end ScalarLM.Logs
