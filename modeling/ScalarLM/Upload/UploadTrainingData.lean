import Mathlib.Data.UInt
import ScalarLM.Lib.OpenFile
import ScalarLM.Lib.Transition

/-! The handlers of `upload_training_data`, which take turns at the chunks of their requests. -/

namespace ScalarLM.Upload

open OpenFile

abbrev Bytes := List UInt8

/-- What the multipart parser passes to the targets. It finishes a part before the next. -/
inductive PartEvent where
  /-- The header of the part `file`, with or without a file name. -/
  | fileStart (named : Bool)
  | fileData (bytes : Bytes)
  | fileFinish
  | paramsData (bytes : Bytes)
  | malformed (error : String)

/-- A chunk of `request.stream()` and what the parser makes of it. -/
structure Chunk where
  size : Nat
  parts : List PartEvent

structure Config where
  maxUploadFileSize : Nat
  trainingJobDirectory : String
  tempDirectory : String

/-- A member that was written into a job directory, and the archive that it came from. -/
structure Placed (Member : Type) where
  directory : String
  member : Member
  archive : Bytes

/-- What an extraction writes, each member with the job directory that it comes to, and the error
that it ends with. A member of an archive may lead into another directory than the one that it is
extracted to, by its name or by links that are there. -/
structure Extracted (Member : Type) where
  written : List (String × Member)
  error : Option String

/-- The functions that are called on the contents of the parts. `dumps` is given the hash that
is added to the arguments, `extractall` an archive, its job directory and what there is in all job
directories, and `copyMl` the directory that is to have an `ml` directory. -/
structure Libraries (Args Member : Type) where
  sha256 : Bytes → String
  loads : Bytes → Except String Args
  dumps : Args → String → Bytes
  extractall : Bytes → String → List (Placed Member) → Extracted Member
  copyMl : String → Except String Unit

inductive UploadException where
  | clientDisconnect
  | maxBodySize (bodyLen : Nat)
  | validation
  | other (error : String)

structure TrainArgs (Args : Type) where
  args : Args
  datasetHash : String
  jobDirectory : String
  trainingDataPath : String

/-- How a handler ends. `extracted` is history: what was extracted, and where to. -/
inductive Reply (Args Member : Type) where
  | returned (finalFilepath : String) (trainArgs : TrainArgs Args)
    (extracted : List (String × Member))
  | httpException (statusCode : Nat) (detail : String)
  | unboundLocalError

structure FileTarget where
  multipartFilename : Bool
  soFar : Nat
  fd : Option (Writer UInt8)

structure Handler (Args Member : Type) where
  received : List Chunk
  coming : List Chunk
  bodyLen : Nat
  started : Bool
  file : FileTarget
  params : Bytes
  reply : Option (Reply Args Member)

def Handler.request {Args Member : Type} (handler : Handler Args Member) : List Chunk :=
  handler.received ++ handler.coming

/-- `placed` is what has been written into the job directories, in that order. -/
structure Server (Args Member : Type) where
  files : Files UInt8
  placed : List (Placed Member)
  uploads : Nat → Option (Handler Args Member)

inductive Event where
  | request (id : Nat) (chunks : List Chunk)
  | chunk (id : Nat)
  | disconnect (id : Nat)
  /-- A buffered writer passes bytes on to the file. -/
  | spill (id count : Nat)
  /-- The objects of a handler that has ended are freed, which closes an open file. -/
  | release (id : Nat)

def Event.id : Event → Nat
  | .request id _ => id
  | .chunk id => id
  | .disconnect id => id
  | .spill id _ => id
  | .release id => id

section Handling

variable {Args Member : Type} (config : Config) (libraries : Libraries Args Member)

def newHandler (chunks : List Chunk) : Handler Args Member where
  received := []
  coming := chunks
  bodyLen := 0
  started := false
  file := ⟨false, 0, none⟩
  params := []
  reply := none

def getTempFilepath : String := config.tempDirectory ++ "/training_job.tar.gz"

def readBlocks (content : Bytes) : List Bytes :=
  if content = [] then []
  else content.take 4096 :: readBlocks (content.drop 4096)
termination_by content.length
decreasing_by
  rename_i nonempty
  rw [List.length_drop]
  have positive := List.length_pos_of_ne_nil nonempty
  omega

/-- A hash that is updated block by block is the one of the blocks in a row. -/
def getFileHash (content : Bytes) : String := libraries.sha256 (readBlocks content).flatten

def getJobDirectory (args : Args) (datasetHash : String) : String :=
  config.trainingJobDirectory ++ "/" ++ libraries.sha256 (libraries.dumps args datasetHash)

variable (handler : Handler Args Member)

def partReceived (files : Files UInt8) :
    PartEvent → Files UInt8 × Handler Args Member × Option UploadException
  | .fileStart named =>
      let opened := files.openWrite
      (opened.1, { handler with
        started := true
        file := { handler.file with multipartFilename := named, fd := some opened.2 } }, none)
  | .fileData bytes =>
      let soFar := handler.file.soFar + bytes.length
      let counted := { handler with file := { handler.file with soFar := soFar } }
      if config.maxUploadFileSize < soFar then (files, counted, some .validation)
      else
        match handler.file.fd with
        | some writer =>
            (files, { counted with
              file := { counted.file with fd := some (writer.write bytes) } }, none)
        | none =>
            (files, counted,
              if handler.started then some (.other "write to closed file") else none)
  | .fileFinish =>
      match handler.file.fd with
      | none => (files, handler, none)
      | some writer =>
          (files.close writer, { handler with file := { handler.file with fd := none } }, none)
  | .paramsData bytes => (files, { handler with params := handler.params ++ bytes }, none)
  | .malformed error => (files, handler, some (.other error))

def dataReceived (files : Files UInt8) (handler : Handler Args Member) :
    List PartEvent → Files UInt8 × Handler Args Member × Option UploadException
  | [] => (files, handler, none)
  | part :: rest =>
      match partReceived config handler files part with
      | (files, handler, none) => dataReceived files handler rest
      | (files, handler, some exception) => (files, handler, some exception)

/-- One iteration of the loop over the stream: `body_validator` and the parser. -/
def chunkReceived (files : Files UInt8) (chunk : Chunk) :
    Files UInt8 × Handler Args Member × Option UploadException :=
  let bodyLen := handler.bodyLen + chunk.size
  if config.maxUploadFileSize < bodyLen then
    (files, { handler with bodyLen := bodyLen }, some (.maxBodySize bodyLen))
  else dataReceived config files { handler with bodyLen := bodyLen } chunk.parts

def fileMissing : Reply Args Member := .httpException 422 "File is missing"

/-- The `except` clauses. A disconnected client goes on behind them, where the names that are
returned have no value. -/
def except : UploadException → Reply Args Member
  | .clientDisconnect =>
      if handler.file.multipartFilename then .unboundLocalError else fileMissing
  | .maxBodySize bodyLen => .httpException 413
      ("Maximum request body size limit (" ++ toString (config.maxUploadFileSize * 2) ++
        " bytes) exceeded (" ++ toString bodyLen ++ " bytes read)")
  | .validation => .httpException 413
      ("Maximum file size limit (" ++ toString config.maxUploadFileSize ++ " bytes) exceeded")
  | .other error => .httpException 500 ("There was an error uploading the file: " ++ error)

def Extracted.placed (extracted : Extracted Member) (archive : Bytes) : List (Placed Member) :=
  extracted.written.map fun written => ⟨written.1, written.2, archive⟩

/-- What is done after the last chunk. An extraction that fails leaves what it has written. -/
def finish (files : Files UInt8) (placed : List (Placed Member)) :
    Files UInt8 × List (Placed Member) × Reply Args Member :=
  match files.entry with
  | none => (files, placed, except config handler (.other
      ("[Errno 2] No such file or directory: '" ++ getTempFilepath config ++ "'")))
  | some file =>
      let fileHash := getFileHash libraries (files.content file)
      match libraries.loads handler.params with
      | .error error => (files, placed, except config handler (.other error))
      | .ok args =>
          let jobDirectory := getJobDirectory config libraries args fileHash
          let extracted := libraries.extractall (files.content file) jobDirectory placed
          let after := placed ++ extracted.placed (files.content file)
          match extracted.error with
          | some error => (files, after, except config handler (.other error))
          | none =>
              match libraries.copyMl jobDirectory with
              | .error error => (files, after, except config handler (.other error))
              | .ok _ =>
                  let path := jobDirectory ++ "/dataset.jsonlines"
                  (files.remove, after,
                    if handler.file.multipartFilename then
                      .returned path ⟨args, fileHash, jobDirectory, path⟩ extracted.written
                    else fileMissing)

/-- A handler takes its next chunk, and goes on to the end after the last one. -/
def takeChunk (files : Files UInt8) (placed : List (Placed Member)) (chunk : Chunk)
    (rest : List Chunk) : Files UInt8 × List (Placed Member) × Handler Args Member :=
  let taken := { handler with received := handler.received ++ [chunk], coming := rest }
  match chunkReceived config taken files chunk with
  | (files, handler, some exception) =>
      (files, placed, { handler with reply := some (except config handler exception) })
  | (files, handler, none) =>
      if rest = [] then
        let finished := finish config libraries handler files placed
        (finished.1, finished.2.1, { handler with reply := some finished.2.2 })
      else (files, placed, handler)

def Server.put (server : Server Args Member) (id : Nat) (files : Files UInt8)
    (placed : List (Placed Member)) (handler : Handler Args Member) : Server Args Member where
  files := files
  placed := placed
  uploads := Function.update server.uploads id (some handler)

def Server.step (server : Server Args Member) : Event → Server Args Member
  | .request id chunks =>
      match server.uploads id with
      | some _ => server
      | none => server.put id server.files server.placed (newHandler chunks)
  | .chunk id =>
      match server.uploads id with
      | none => server
      | some handler =>
          match handler.reply, handler.coming with
          | none, chunk :: rest =>
              let taken :=
                takeChunk config libraries handler server.files server.placed chunk rest
              server.put id taken.1 taken.2.1 taken.2.2
          | _, _ => server
  | .disconnect id =>
      match server.uploads id with
      | none => server
      | some handler =>
          match handler.reply with
          | some _ => server
          | none => server.put id server.files server.placed
              { handler with reply := some (except config handler .clientDisconnect) }
  | .spill id count =>
      match server.uploads id with
      | none => server
      | some handler =>
          match handler.file.fd with
          | none => server
          | some writer =>
              let spilled := server.files.spill writer count
              server.put id spilled.1 server.placed
                { handler with file := { handler.file with fd := some spilled.2 } }
  | .release id =>
      match server.uploads id with
      | none => server
      | some handler =>
          match handler.reply, handler.file.fd with
          | some _, some writer =>
              server.put id (server.files.close writer) server.placed
                { handler with file := { handler.file with fd := none } }
          | _, _ => server

/-- A server that has just started, with or without a file of the name that is used and with what
there is in the job directories. -/
def started (files : Files UInt8) (placed : List (Placed Member)) : Server Args Member :=
  ⟨files, placed, fun _ => none⟩

end Handling

end ScalarLM.Upload
