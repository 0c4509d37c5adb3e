import ScalarLM.Upload.UploadTrainingData

/-! Whether concurrent uploads get the hash and the files of their own archives. -/

namespace ScalarLM.Upload

open OpenFile Transition

def sentPart (bytes : Bytes) : PartEvent → Bytes
  | .fileStart _ => []
  | .fileData more => bytes ++ more
  | _ => bytes

def openPart (isOpen : Bool) : PartEvent → Bool
  | .fileStart _ => true
  | .fileFinish => false
  | _ => isOpen

def sentParams (bytes : Bytes) : PartEvent → Bytes
  | .paramsData more => bytes ++ more
  | _ => bytes

def PartEvent.starts : PartEvent → Bool
  | .fileStart _ => true
  | _ => false

def allParts (chunks : List Chunk) : List PartEvent := chunks.flatMap Chunk.parts

def fileSent (chunks : List Chunk) : Bytes := (allParts chunks).foldl sentPart []

def argumentsSent (chunks : List Chunk) : Bytes := (allParts chunks).foldl sentParams []

def fileBegun (chunks : List Chunk) : Bool := (allParts chunks).any PartEvent.starts

def fileOpen (chunks : List Chunk) : Bool := (allParts chunks).foldl openPart false

section Isolation

variable {Args Member : Type} (config : Config) (libraries : Libraries Args Member)

/-- An upload that has begun to write the file and was not answered yet, or that has left the
file open. -/
def Handler.Holding (handler : Handler Args Member) : Prop :=
  (handler.reply = none ∧ handler.started = true) ∨ handler.file.fd.isSome = true

/-- What a handler finds under the name when its stream ends. -/
def Handler.finds (files : Files UInt8) (handler : Handler Args Member) : Option Bytes :=
  if fileBegun handler.request then some (fileSent handler.request)
  else files.entry.map files.content

/-- An archive comes into its job directory alone, into which no other archive came before. -/
structure Apart (server : Server Args Member) (archive : Bytes) (directory : String) : Prop where
  contained : ∀ written ∈ (libraries.extractall archive directory server.placed).written,
    written.1 = directory
  placed : ∀ entry ∈ server.placed, entry.directory = directory → entry.archive = archive
  returned : ∀ other another path trainArgs extracted, server.uploads other = some another →
    another.reply = some (.returned path trainArgs extracted) →
      trainArgs.jobDirectory = directory → fileSent another.request = archive

/-- The file part of a request has an end, and begins when no other upload is at the file; what
is extracted comes into a job directory of its own. -/
def Exclusive (server : Server Args Member) : Event → Prop
  | .request _ chunks => fileOpen chunks = false
  | .chunk id => ∀ handler chunk rest, server.uploads id = some handler →
      handler.coming = chunk :: rest →
        (chunk.parts.any PartEvent.starts = true →
          ∀ other another, server.uploads other = some another → other ≠ id →
            ¬ another.Holding) ∧
        (handler.reply = none → rest = [] →
          ∀ archive args, handler.finds server.files = some archive →
            libraries.loads (argumentsSent handler.request) = .ok args →
              Apart libraries server archive
                (getJobDirectory config libraries args (libraries.sha256 archive)))
  | _ => True

/-- What a handler returns is made of the bytes that its own client sent, and so is all that was
ever extracted into its job directory. -/
structure Gets (placed : List (Placed Member)) (archive : Bytes) (trainArgs : TrainArgs Args)
    (extracted : List (String × Member)) : Prop where
  hash : trainArgs.datasetHash = libraries.sha256 archive
  whole : ∃ before, libraries.extractall archive trainArgs.jobDirectory before = ⟨extracted, none⟩
  inside : ∀ written ∈ extracted, written.1 = trainArgs.jobDirectory
  there : ∀ written ∈ extracted, ⟨written.1, written.2, archive⟩ ∈ placed
  only : ∀ entry ∈ placed, entry.directory = trainArgs.jobDirectory → entry.archive = archive

def Own (placed : List (Placed Member)) (handler : Handler Args Member) : Prop :=
  ∀ path trainArgs extracted, handler.reply = some (.returned path trainArgs extracted) →
    Gets libraries placed (fileSent handler.request) trainArgs extracted

def Isolated (server : Server Args Member) : Prop :=
  ∀ id handler, server.uploads id = some handler → Own libraries server.placed handler

/-- The file under the name has the bytes, but for those in the buffer of the writer. -/
def Tracks (files : Files UInt8) (fd : Option (Writer UInt8)) (bytes : Bytes) : Prop :=
  match fd with
  | some writer => Holds files writer bytes ∧ (files.entry = none ∨ files.entry = some writer.file)
  | none => ∀ file, files.entry = some file → files.content file = bytes

structure Receives (files : Files UInt8) (handler : Handler Args Member) (bytes : Bytes)
    (isOpen : Bool) : Prop where
  tracks : handler.started = true → Tracks files handler.file.fd bytes
  shut : handler.started = false → handler.file.fd = none
  isOpen : handler.file.fd.isSome = isOpen
  named : handler.file.multipartFilename = true → handler.started = true

structure Keeps (handler : Handler Args Member) : Prop where
  params : handler.params = argumentsSent handler.received
  begun : handler.started = fileBegun handler.received

structure Alone (server : Server Args Member) : Prop where
  one : ∀ id handler other another, server.uploads id = some handler →
    server.uploads other = some another → handler.Holding → another.Holding → id = other
  receives : ∀ id handler, server.uploads id = some handler → handler.reply = none →
    Receives server.files handler (fileSent handler.received) (fileOpen handler.received)
  keeps : ∀ id handler, server.uploads id = some handler → handler.reply = none →
    Keeps handler
  complete : ∀ id handler, server.uploads id = some handler → fileOpen handler.request = false
  own : ∀ id handler, server.uploads id = some handler → Own libraries server.placed handler

variable {config libraries} {files : Files UInt8} {handler : Handler Args Member}
  {bytes : Bytes} {isOpen : Bool}

theorem readBlocks_flatten (content : Bytes) : (readBlocks content).flatten = content := by
  fun_induction readBlocks content with
  | case1 => rfl
  | case2 content nonempty ih =>
      rw [List.flatten_cons, ih, List.take_append_drop]

theorem getFileHash_eq (content : Bytes) :
    getFileHash libraries content = libraries.sha256 content := by
  rw [getFileHash, readBlocks_flatten]

theorem Tracks.remove {fd : Option (Writer UInt8)} (tracks : Tracks files fd bytes) :
    Tracks files.remove fd bytes := by
  cases fd with
  | none =>
      intro file present
      cases present
  | some writer => exact ⟨⟨tracks.1.written, tracks.1.atEnd⟩, .inl rfl⟩

theorem Receives.remove (receives : Receives files handler bytes isOpen) :
    Receives files.remove handler bytes isOpen where
  tracks begun := (receives.tracks begun).remove
  shut := receives.shut
  isOpen := receives.isOpen
  named := receives.named

theorem tracks_open (files : Files UInt8) :
    Tracks files.openWrite.1 (some files.openWrite.2) [] := by
  refine ⟨openWrite_holds files, .inr ?_⟩
  rw [Files.openWrite]
  split
  · rename_i file present
    exact present
  · rfl

theorem tracks_close {writer : Writer UInt8} (tracks : Tracks files (some writer) bytes) :
    Tracks (files.close writer) none bytes := by
  intro file present
  have same : files.entry = some file := present
  rcases tracks.2 with gone | here
  · rw [gone] at same
    cases same
  · rw [here] at same
    obtain rfl := Option.some.inj same
    exact close_content tracks.1

theorem Receives.part (receives : Receives files handler bytes isOpen) (part : PartEvent)
    {after : Files UInt8} {next : Handler Args Member}
    (taken : partReceived config handler files part = (after, next, none)) :
    Receives after next (sentPart bytes part) (openPart isOpen part) := by
  cases part with
  | fileStart named =>
      obtain ⟨rfl, rfl, _⟩ := taken
      exact ⟨fun _ => tracks_open files, by simp, rfl, fun _ => rfl⟩
  | fileData more =>
      rw [partReceived] at taken
      split at taken
      · cases taken
      · split at taken
        · rename_i writer there
          obtain ⟨rfl, rfl, _⟩ := taken
          have isSome := receives.isOpen
          refine ⟨?_, ?_, ?_, receives.named⟩
          · intro begun
            have tracks := receives.tracks begun
            rw [there] at tracks
            exact ⟨tracks.1.write more, tracks.2⟩
          · intro still
            rw [receives.shut still] at there
            cases there
          · rw [there] at isSome
            exact isSome
        · rename_i closed
          split at taken
          · cases taken
          · rename_i still
            obtain ⟨rfl, rfl, _⟩ := taken
            exact ⟨fun begun => absurd begun still, receives.shut, receives.isOpen,
              receives.named⟩
  | fileFinish =>
      rw [partReceived] at taken
      split at taken
      · rename_i closed
        obtain ⟨rfl, rfl, _⟩ := taken
        refine ⟨receives.tracks, receives.shut, ?_, receives.named⟩
        rw [closed]
        rfl
      · rename_i writer there
        obtain ⟨rfl, rfl, _⟩ := taken
        refine ⟨?_, fun _ => rfl, rfl, receives.named⟩
        intro begun
        have tracks := receives.tracks begun
        rw [there] at tracks
        exact tracks_close tracks
  | paramsData more =>
      obtain ⟨rfl, rfl, _⟩ := taken
      exact ⟨receives.tracks, receives.shut, receives.isOpen, receives.named⟩
  | malformed error => cases taken

theorem Receives.parts (receives : Receives files handler bytes isOpen) (parts : List PartEvent)
    {after : Files UInt8} {next : Handler Args Member}
    (taken : dataReceived config files handler parts = (after, next, none)) :
    Receives after next (parts.foldl sentPart bytes) (parts.foldl openPart isOpen) := by
  induction parts generalizing files handler bytes isOpen with
  | nil =>
      obtain ⟨rfl, rfl, _⟩ := taken
      exact receives
  | cons part rest ih =>
      rw [dataReceived] at taken
      split at taken
      · rename_i files' handler' first
        exact ih (receives.part part first) taken
      · cases taken

variable (config files) in
theorem partReceived_quiet (shut : handler.file.fd = none) {part : PartEvent}
    (quiet : part.starts = false) :
    (partReceived config handler files part).1 = files ∧
      (partReceived config handler files part).2.1.file.fd = none ∧
      (partReceived config handler files part).2.1.started = handler.started := by
  cases part with
  | fileStart named => cases quiet
  | fileData more =>
      rw [partReceived, shut]
      split <;> exact ⟨rfl, shut, rfl⟩
  | fileFinish =>
      rw [partReceived, shut]
      exact ⟨rfl, shut, rfl⟩
  | paramsData more => exact ⟨rfl, shut, rfl⟩
  | malformed error => exact ⟨rfl, shut, rfl⟩

theorem dataReceived_quiet (shut : handler.file.fd = none) {parts : List PartEvent}
    (quiet : parts.any PartEvent.starts = false) :
    (dataReceived config files handler parts).1 = files ∧
      (dataReceived config files handler parts).2.1.file.fd = none ∧
      (dataReceived config files handler parts).2.1.started = handler.started := by
  induction parts generalizing handler with
  | nil => exact ⟨rfl, shut, rfl⟩
  | cons part rest ih =>
      rw [List.any_cons, Bool.or_eq_false_iff] at quiet
      have first := partReceived_quiet config files shut quiet.1
      rw [dataReceived]
      split
      · rename_i files' handler' taken
        rw [taken] at first
        obtain ⟨rfl, closed, still⟩ := first
        rw [← still]
        exact ih closed quiet.2
      · rename_i files' handler' exception taken
        rw [taken] at first
        exact first

variable (config files handler) in
theorem partReceived_frame (part : PartEvent) :
    (partReceived config handler files part).2.1.received = handler.received ∧
      (partReceived config handler files part).2.1.coming = handler.coming ∧
      (partReceived config handler files part).2.1.reply = handler.reply := by
  cases part with
  | fileStart named => exact ⟨rfl, rfl, rfl⟩
  | fileData more =>
      rw [partReceived]
      split
      · exact ⟨rfl, rfl, rfl⟩
      · split <;> exact ⟨rfl, rfl, rfl⟩
  | fileFinish =>
      rw [partReceived]
      split <;> exact ⟨rfl, rfl, rfl⟩
  | paramsData more => exact ⟨rfl, rfl, rfl⟩
  | malformed error => exact ⟨rfl, rfl, rfl⟩

theorem dataReceived_frame (parts : List PartEvent) :
    (dataReceived config files handler parts).2.1.received = handler.received ∧
      (dataReceived config files handler parts).2.1.coming = handler.coming ∧
      (dataReceived config files handler parts).2.1.reply = handler.reply := by
  induction parts generalizing files handler with
  | nil => exact ⟨rfl, rfl, rfl⟩
  | cons part rest ih =>
      have first := partReceived_frame config files handler part
      rw [dataReceived]
      split
      · rename_i files' handler' taken
        rw [taken] at first
        have later := @ih files' handler'
        rw [first.1, first.2.1, first.2.2] at later
        exact later
      · rename_i files' handler' exception taken
        rw [taken] at first
        exact first

variable (config files handler) in
theorem partReceived_keeps (part : PartEvent) :
    (partReceived config handler files part).2.1.params = sentParams handler.params part ∧
      (partReceived config handler files part).2.1.started =
        (handler.started || part.starts) := by
  have still : handler.started = (handler.started || false) := (Bool.or_false _).symm
  cases part with
  | fileStart named => exact ⟨rfl, (Bool.or_true _).symm⟩
  | fileData more =>
      rw [partReceived]
      split
      · exact ⟨rfl, still⟩
      · split <;> exact ⟨rfl, still⟩
  | fileFinish =>
      rw [partReceived]
      split <;> exact ⟨rfl, still⟩
  | paramsData more => exact ⟨rfl, still⟩
  | malformed error => exact ⟨rfl, still⟩

theorem dataReceived_keeps (parts : List PartEvent) {after : Files UInt8}
    {next : Handler Args Member}
    (taken : dataReceived config files handler parts = (after, next, none)) :
    next.params = parts.foldl sentParams handler.params ∧
      next.started = (handler.started || parts.any PartEvent.starts) := by
  induction parts generalizing files handler with
  | nil =>
      obtain ⟨rfl, rfl, _⟩ := taken
      exact ⟨rfl, (Bool.or_false _).symm⟩
  | cons part rest ih =>
      have first := partReceived_keeps config files handler part
      rw [dataReceived] at taken
      split at taken
      · rename_i files' handler' one
        rw [one] at first
        obtain ⟨params, begun⟩ := ih taken
        rw [params, begun, first.1, first.2, List.any_cons, Bool.or_assoc]
        exact ⟨rfl, rfl⟩
      · cases taken

theorem except_not_returned (exception : UploadException) (path : String)
    (trainArgs : TrainArgs Args) (extracted : List (String × Member)) :
    except config handler exception ≠ .returned path trainArgs extracted := by
  cases exception with
  | clientDisconnect =>
      rw [except, fileMissing]
      split <;> simp
  | maxBodySize bodyLen => simp [except]
  | validation => simp [except]
  | other error => simp [except]

variable {placed : List (Placed Member)}

theorem finish_returned {path : String} {trainArgs : TrainArgs Args}
    {extracted : List (String × Member)}
    (result : (finish config libraries handler files placed).2.2 =
      .returned path trainArgs extracted) :
    ∃ file args, files.entry = some file ∧ handler.file.multipartFilename = true ∧
      libraries.loads handler.params = .ok args ∧
      trainArgs.datasetHash = libraries.sha256 (files.content file) ∧
      trainArgs.jobDirectory = getJobDirectory config libraries args
        (libraries.sha256 (files.content file)) ∧
      libraries.extractall (files.content file) trainArgs.jobDirectory placed =
        ⟨extracted, none⟩ ∧
      (finish config libraries handler files placed).2.1 = placed ++
        (libraries.extractall (files.content file) trainArgs.jobDirectory placed).placed
          (files.content file) := by
  have raised (error : String) : except config handler (.other error) ≠
      .returned path trainArgs extracted := except_not_returned _ _ _ _
  rw [finish] at result ⊢
  split at result
  · exact absurd result (raised _)
  · rename_i file present
    dsimp only at result ⊢
    split at result
    · exact absurd result (raised _)
    · rename_i args loaded
      split at result
      · exact absurd result (raised _)
      · rename_i opened
        split at result
        · exact absurd result (raised _)
        · rename_i copied
          dsimp only at result
          split at result
          · rename_i named
            obtain ⟨_, rfl, rfl⟩ := Reply.returned.inj result
            refine ⟨file, args, present, named, loaded, getFileHash_eq _, ?_, ?_, ?_⟩
            · rw [getFileHash_eq]
            · rw [← opened]
            · rfl
          · cases result

theorem finish_files (handler : Handler Args Member) (files : Files UInt8)
    (placed : List (Placed Member)) :
    (finish config libraries handler files placed).1 = files ∨
      (finish config libraries handler files placed).1 = files.remove := by
  rw [finish]
  split
  · exact .inl rfl
  · dsimp only
    split
    · exact .inl rfl
    · split
      · exact .inl rfl
      · split
        · exact .inl rfl
        · exact .inr rfl

variable (config libraries) in
theorem finish_placed (handler : Handler Args Member) (files : Files UInt8)
    (placed : List (Placed Member)) :
    (finish config libraries handler files placed).2.1 = placed ∨
      ∃ file args, files.entry = some file ∧ libraries.loads handler.params = .ok args ∧
        (finish config libraries handler files placed).2.1 = placed ++
          (libraries.extractall (files.content file) (getJobDirectory config libraries args
            (libraries.sha256 (files.content file))) placed).placed (files.content file) := by
  rw [finish]
  split
  · exact .inl rfl
  · rename_i file present
    dsimp only
    split
    · exact .inl rfl
    · rename_i args loaded
      refine .inr ⟨file, args, present, loaded, ?_⟩
      rw [← getFileHash_eq]
      split
      · rfl
      · split <;> rfl

theorem allParts_snoc (chunks : List Chunk) (chunk : Chunk) :
    allParts (chunks ++ [chunk]) = allParts chunks ++ chunk.parts := by
  simp [allParts]

theorem fileSent_snoc (chunks : List Chunk) (chunk : Chunk) :
    fileSent (chunks ++ [chunk]) = chunk.parts.foldl sentPart (fileSent chunks) := by
  rw [fileSent, allParts_snoc, List.foldl_append, ← fileSent]

theorem fileOpen_snoc (chunks : List Chunk) (chunk : Chunk) :
    fileOpen (chunks ++ [chunk]) = chunk.parts.foldl openPart (fileOpen chunks) := by
  rw [fileOpen, allParts_snoc, List.foldl_append, ← fileOpen]

theorem Receives.chunk (receives : Receives files handler bytes isOpen) (chunk : Chunk)
    {after : Files UInt8} {next : Handler Args Member}
    (taken : chunkReceived config handler files chunk = (after, next, none)) :
    Receives after next (chunk.parts.foldl sentPart bytes) (chunk.parts.foldl openPart isOpen) := by
  rw [chunkReceived] at taken
  split at taken
  · cases taken
  · refine Receives.parts ?_ chunk.parts taken
    exact ⟨receives.tracks, receives.shut, receives.isOpen, receives.named⟩

variable (config) in
theorem chunkReceived_frame (handler : Handler Args Member) (files : Files UInt8) (chunk : Chunk) :
    (chunkReceived config handler files chunk).2.1.received = handler.received ∧
      (chunkReceived config handler files chunk).2.1.coming = handler.coming ∧
      (chunkReceived config handler files chunk).2.1.reply = handler.reply := by
  rw [chunkReceived]
  split
  · exact ⟨rfl, rfl, rfl⟩
  · exact dataReceived_frame _

variable (config files handler) in
theorem chunkReceived_quiet (shut : handler.file.fd = none) {chunk : Chunk}
    (quiet : chunk.parts.any PartEvent.starts = false) :
    (chunkReceived config handler files chunk).1 = files ∧
      (chunkReceived config handler files chunk).2.1.file.fd = none ∧
      (chunkReceived config handler files chunk).2.1.started = handler.started := by
  rw [chunkReceived]
  split
  · exact ⟨rfl, shut, rfl⟩
  · refine dataReceived_quiet ?_ quiet
    exact shut

variable {server : Server Args Member} {id : Nat}

/-- What was placed is still there, and nothing was added for the job directories of uploads that
were answered but their own archives. -/
def Grows (server : Server Args Member) (after : List (Placed Member)) : Prop :=
  ∃ more, after = server.placed ++ more ∧
    ∀ other another path trainArgs extracted, server.uploads other = some another →
      another.reply = some (.returned path trainArgs extracted) →
        ∀ entry ∈ more, entry.directory = trainArgs.jobDirectory →
          entry.archive = fileSent another.request

theorem Grows.refl (server : Server Args Member) : Grows server server.placed :=
  ⟨[], (List.append_nil _).symm, fun _ _ _ _ _ _ _ _ member => absurd member List.not_mem_nil⟩

theorem mem_placed {extracted : Extracted Member} {archive : Bytes} {entry : Placed Member}
    (member : entry ∈ extracted.placed archive) :
    ∃ written ∈ extracted.written, entry = ⟨written.1, written.2, archive⟩ := by
  obtain ⟨written, listed, rfl⟩ := List.mem_map.mp member
  exact ⟨written, listed, rfl⟩

theorem Apart.grows {archive : Bytes} {directory : String}
    (apart : Apart libraries server archive directory) :
    Grows server (server.placed ++
      (libraries.extractall archive directory server.placed).placed archive) := by
  refine ⟨_, rfl, fun other another path trainArgs extracted there replied entry member here => ?_⟩
  obtain ⟨written, listed, rfl⟩ := mem_placed member
  have same : trainArgs.jobDirectory = directory := here.symm.trans (apart.contained written listed)
  exact (apart.returned other another path trainArgs extracted there replied same).symm

theorem Gets.grows {archive : Bytes} {trainArgs : TrainArgs Args}
    {extracted : List (String × Member)} {more : List (Placed Member)}
    (gets : Gets libraries placed archive trainArgs extracted)
    (others : ∀ entry ∈ more, entry.directory = trainArgs.jobDirectory →
      entry.archive = archive) : Gets libraries (placed ++ more) archive trainArgs extracted where
  hash := gets.hash
  whole := gets.whole
  inside := gets.inside
  there written member := List.mem_append_left _ (gets.there written member)
  only entry member here := (List.mem_append.mp member).elim
    (fun before => gets.only entry before here) fun added => others entry added here

/-- An archive that comes into its job directory alone is all that there is in it. -/
theorem Apart.gets {archive : Bytes} {trainArgs : TrainArgs Args}
    {extracted : List (String × Member)}
    (apart : Apart libraries server archive trainArgs.jobDirectory)
    (hash : trainArgs.datasetHash = libraries.sha256 archive)
    (opened : libraries.extractall archive trainArgs.jobDirectory server.placed =
      ⟨extracted, none⟩) :
    Gets libraries (server.placed ++ (libraries.extractall archive trainArgs.jobDirectory
      server.placed).placed archive) archive trainArgs extracted := by
  have contained := apart.contained
  rw [opened] at contained ⊢
  refine ⟨hash, ⟨_, opened⟩, contained, fun written member => ?_, fun entry member here => ?_⟩
  · exact List.mem_append_right _ (List.mem_map.mpr ⟨written, member, rfl⟩)
  · rcases List.mem_append.mp member with before | added
    · exact apart.placed entry before here
    · obtain ⟨written, _, rfl⟩ := mem_placed added
      rfl

theorem fileBegun_snoc (chunks : List Chunk) (chunk : Chunk) :
    fileBegun (chunks ++ [chunk]) =
      (fileBegun chunks || chunk.parts.any PartEvent.starts) := by
  rw [fileBegun, allParts_snoc, List.any_append, ← fileBegun]

theorem argumentsSent_snoc (chunks : List Chunk) (chunk : Chunk) :
    argumentsSent (chunks ++ [chunk]) = chunk.parts.foldl sentParams (argumentsSent chunks) := by
  rw [argumentsSent, allParts_snoc, List.foldl_append, ← argumentsSent]

theorem chunkReceived_keeps (chunk : Chunk) {after : Files UInt8} {next : Handler Args Member}
    (taken : chunkReceived config handler files chunk = (after, next, none)) :
    next.params = chunk.parts.foldl sentParams handler.params ∧
      next.started = (handler.started || chunk.parts.any PartEvent.starts) := by
  rw [chunkReceived] at taken
  split at taken
  · cases taken
  · obtain ⟨params, begun⟩ := dataReceived_keeps chunk.parts taken
    exact ⟨params, begun⟩

theorem finds_after (keeps : Keeps handler)
    (receives : Receives files handler (fileSent handler.received) (fileOpen handler.received))
    (complete : fileOpen handler.request = false) {chunk : Chunk}
    (coming : handler.coming = [chunk]) {after : Files UInt8} {next : Handler Args Member}
    (taken : chunkReceived config
      { handler with received := handler.received ++ [chunk], coming := [] } files chunk =
        (after, next, none))
    (later : Receives after next (fileSent (handler.received ++ [chunk]))
      (fileOpen (handler.received ++ [chunk]))) {file : Nat}
    (present : after.entry = some file) :
    handler.finds files = some (after.content file) := by
  have request : handler.request = handler.received ++ [chunk] := by
    rw [Handler.request, coming]
  have begun := (chunkReceived_keeps chunk taken).2
  dsimp only at begun
  rw [keeps.begun, ← fileBegun_snoc] at begun
  rw [Handler.finds, request]
  split
  · rename_i starts
    rw [request, ← later.isOpen] at complete
    have closed : next.file.fd = none :=
      Option.not_isSome_iff_eq_none.mp (Bool.eq_false_iff.mp complete)
    have tracks := later.tracks (begun.trans starts)
    rw [closed] at tracks
    rw [tracks file present]
  · rename_i never
    -- The stream has no file part, and what is under the name is of somebody else.
    rw [Bool.not_eq_true, fileBegun_snoc, Bool.or_eq_false_iff, ← keeps.begun] at never
    have same := (chunkReceived_quiet config files
      { handler with received := handler.received ++ [chunk], coming := [] }
      (receives.shut never.1) never.2).1
    rw [taken] at same
    rw [← show after = files from same, present]
    rfl

variable (config libraries) in
theorem takeChunk_own
    (receives : Receives server.files handler (fileSent handler.received)
      (fileOpen handler.received)) (keeps : Keeps handler)
    (complete : fileOpen handler.request = false)
    (waiting : handler.reply = none) {chunk : Chunk} {rest : List Chunk}
    (coming : handler.coming = chunk :: rest)
    (apart : rest = [] → ∀ archive args, handler.finds server.files = some archive →
      libraries.loads (argumentsSent handler.request) = .ok args →
        Apart libraries server archive
          (getJobDirectory config libraries args (libraries.sha256 archive))) :
    let taken := takeChunk config libraries handler server.files server.placed chunk rest
    taken.2.2.request = handler.request ∧ Grows server taken.2.1 ∧
      Own libraries taken.2.1 taken.2.2 ∧
      (taken.2.2.reply = none →
        Receives taken.1 taken.2.2 (fileSent taken.2.2.received) (fileOpen taken.2.2.received) ∧
          Keeps taken.2.2) := by
  have split : handler.received ++ [chunk] ++ rest = handler.request := by
    rw [Handler.request, coming, List.append_assoc, List.singleton_append]
  have moved : Receives server.files
      { handler with received := handler.received ++ [chunk], coming := rest }
      (fileSent handler.received) (fileOpen handler.received) :=
    ⟨receives.tracks, receives.shut, receives.isOpen, receives.named⟩
  have frame := chunkReceived_frame config
    { handler with received := handler.received ++ [chunk], coming := rest } server.files chunk
  rw [takeChunk]
  dsimp only
  split
  · rename_i after next exception taken
    rw [taken] at frame
    refine ⟨?_, Grows.refl server, ?_, ?_⟩
    · rw [← split, Handler.request, frame.1, frame.2.1]
    · intro path trainArgs extracted replied
      exact absurd (Option.some.inj replied) (except_not_returned _ _ _ _)
    · intro unanswered
      cases unanswered
  · rename_i after next taken
    rw [taken] at frame
    have later := moved.chunk chunk taken
    rw [← fileSent_snoc, ← fileOpen_snoc] at later
    obtain ⟨params, begun⟩ := chunkReceived_keeps chunk taken
    dsimp only at params begun
    rw [keeps.params, ← argumentsSent_snoc] at params
    rw [keeps.begun, ← fileBegun_snoc] at begun
    split
    · rename_i last
      subst last
      rw [List.append_nil] at split
      have request : next.request = handler.request := by
        rw [Handler.request, frame.1, frame.2.1, List.append_nil]
        exact split
      have found (file : Nat) (present : after.entry = some file) :
          handler.finds server.files = some (after.content file) :=
        finds_after keeps receives complete coming taken later present
      rw [split] at params
      refine ⟨request, ?_, ?_, ?_⟩
      · rcases finish_placed config libraries next after server.placed with
          same | ⟨file, args, present, loaded, grown⟩
        · rw [same]
          exact Grows.refl server
        · rw [grown]
          exact (apart rfl _ args (found file present) (params ▸ loaded)).grows
      · intro path trainArgs extracted replied
        obtain ⟨file, args, present, named, loaded, hash, directory, opened, grown⟩ :=
          finish_returned (Option.some.inj replied)
        have alone := apart rfl _ args (found file present) (params ▸ loaded)
        rw [← directory] at alone
        have tracks := later.tracks (later.named named)
        have shut : next.file.fd = none := by
          rw [← Option.not_isSome_iff_eq_none, later.isOpen, split, complete]
          decide
        rw [shut] at tracks
        have sent : after.content file = fileSent handler.request := by
          rw [tracks file present, split]
        have gets := alone.gets hash opened
        rw [← grown, sent] at gets
        exact request.symm ▸ gets
      · intro unanswered
        cases unanswered
    · refine ⟨?_, Grows.refl server, ?_, ?_⟩
      · rw [← split, Handler.request, frame.1, frame.2.1]
      · intro path trainArgs extracted replied
        rw [frame.2.2] at replied
        rw [waiting] at replied
        cases replied
      · intro _
        rw [frame.1]
        exact ⟨later, ⟨by rw [frame.1]; exact params, by rw [frame.1]; exact begun⟩⟩

variable (config libraries files) in
theorem takeChunk_quiet (shut : handler.file.fd = none) {chunk : Chunk}
    (quiet : chunk.parts.any PartEvent.starts = false) (rest : List Chunk)
    (placed : List (Placed Member)) :
    let taken := takeChunk config libraries handler files placed chunk rest
    (taken.1 = files ∨ taken.1 = files.remove) ∧ taken.2.2.file.fd = none ∧
      taken.2.2.started = handler.started := by
  have frame := chunkReceived_quiet config files
    { handler with received := handler.received ++ [chunk], coming := rest } shut quiet
  rw [takeChunk]
  dsimp only
  split
  · rename_i after next exception taken
    rw [taken] at frame
    exact ⟨.inl frame.1, frame.2⟩
  · rename_i after next taken
    rw [taken] at frame
    obtain ⟨rfl, closed, begun⟩ := frame
    split
    · exact ⟨finish_files _ _ _, closed, begun⟩
    · exact ⟨.inl rfl, closed, begun⟩

def OthersAway (server : Server Args Member) (id : Nat) : Prop :=
  ∀ other another, server.uploads other = some another → other ≠ id → ¬ another.Holding

theorem Receives.away (receives : Receives files handler bytes isOpen)
    (away : ¬ handler.Holding) (waiting : handler.reply = none) (after : Files UInt8) :
    Receives after handler bytes isOpen where
  tracks begun := absurd (.inl ⟨waiting, begun⟩) away
  shut := receives.shut
  isOpen := receives.isOpen
  named := receives.named

theorem Alone.othersAway (alone : Alone libraries server) (here : server.uploads id = some handler)
    (holding : handler.Holding) : OthersAway server id := by
  intro other another there different also
  exact different (alone.one other another id handler there here also holding)

theorem Alone.put (alone : Alone libraries server) {after : Files UInt8}
    {next : Handler Args Member}
    (kept : OthersAway server id ∨
      (¬ next.Holding ∧ (after = server.files ∨ after = server.files.remove)))
    {placed : List (Placed Member)} (grows : Grows server placed)
    (receives : next.reply = none →
      Receives after next (fileSent next.received) (fileOpen next.received) ∧ Keeps next)
    (complete : fileOpen next.request = false) (own : Own libraries placed next) :
    Alone libraries (server.put id after placed next) := by
  -- The upload with the given number is the new one, any other is as it was.
  have found {other : Nat} {another : Handler Args Member}
      (there : (server.put id after placed next).uploads other = some another) :
      (other = id ∧ another = next) ∨ (other ≠ id ∧ server.uploads other = some another) := by
    have there : Function.update server.uploads id (some next) other = some another := there
    by_cases same : other = id
    · rw [same, Function.update_self] at there
      exact .inl ⟨same, (Option.some.inj there).symm⟩
    · rw [Function.update_of_ne same] at there
      exact .inr ⟨same, there⟩
  have apart {other : Nat} {another : Handler Args Member} (different : other ≠ id)
      (there : server.uploads other = some another) (holding : another.Holding) :
      ¬ next.Holding := by
    rcases kept with away | ⟨out, _⟩
    · exact absurd holding (away other another there different)
    · exact out
  refine ⟨?_, ?_, ?_, ?_, ?_⟩
  · intro one first two second thereOne thereTwo holdsOne holdsTwo
    rcases found thereOne with ⟨rfl, rfl⟩ | ⟨differsOne, oldOne⟩
    · rcases found thereTwo with ⟨same, _⟩ | ⟨differsTwo, oldTwo⟩
      · exact same.symm
      · exact absurd holdsOne (apart differsTwo oldTwo holdsTwo)
    · rcases found thereTwo with ⟨rfl, rfl⟩ | ⟨_, oldTwo⟩
      · exact absurd holdsTwo (apart differsOne oldOne holdsOne)
      · exact alone.one one first two second oldOne oldTwo holdsOne holdsTwo
  · intro other another there waiting
    rcases found there with ⟨_, rfl⟩ | ⟨different, old⟩
    · exact (receives waiting).1
    · have before := alone.receives other another old waiting
      rcases kept with away | ⟨_, rfl | rfl⟩
      · exact before.away (away other another old different) waiting after
      · exact before
      · exact before.remove
  · intro other another there waiting
    rcases found there with ⟨_, rfl⟩ | ⟨_, old⟩
    · exact (receives waiting).2
    · exact alone.keeps other another old waiting
  · intro other another there
    rcases found there with ⟨_, rfl⟩ | ⟨_, old⟩
    · exact complete
    · exact alone.complete other another old
  · intro other another there
    rcases found there with ⟨_, rfl⟩ | ⟨_, old⟩
    · exact own
    · intro path trainArgs extracted replied
      obtain ⟨more, grown, others⟩ := grows
      have gets := alone.own other another old path trainArgs extracted replied
      exact grown ▸ gets.grows (others other another path trainArgs extracted old replied)

theorem Alone.chunk (alone : Alone libraries server) (here : server.uploads id = some handler)
    (waiting : handler.reply = none) {chunk : Chunk} {rest : List Chunk}
    (coming : handler.coming = chunk :: rest)
    (exclusive : chunk.parts.any PartEvent.starts = true → OthersAway server id)
    (apart : rest = [] → ∀ archive args, handler.finds server.files = some archive →
      libraries.loads (argumentsSent handler.request) = .ok args →
        Apart libraries server archive
          (getJobDirectory config libraries args (libraries.sha256 archive))) :
    let taken := takeChunk config libraries handler server.files server.placed chunk rest
    Alone libraries (server.put id taken.1 taken.2.1 taken.2.2) := by
  have receives := alone.receives id handler here waiting
  obtain ⟨request, grows, own, later⟩ :=
    takeChunk_own config libraries receives (alone.keeps id handler here waiting)
      (alone.complete id handler here) waiting coming apart
  refine alone.put ?_ grows later ?_ own
  · by_cases holding : handler.Holding
    · exact .inl (alone.othersAway here holding)
    · cases starts : chunk.parts.any PartEvent.starts with
      | true => exact .inl (exclusive starts)
      | false =>
          have still : handler.started = false := by
            rw [← Bool.not_eq_true]
            exact fun begun => holding (.inl ⟨waiting, begun⟩)
          obtain ⟨same, shut, begun⟩ := takeChunk_quiet config libraries server.files
            (receives.shut still) starts rest server.placed
          refine .inr ⟨?_, same⟩
          intro after
          rcases after with ⟨_, holds⟩ | holds
          · rw [begun, still] at holds
            cases holds
          · rw [shut] at holds
            cases holds
  · rw [request]
    exact alone.complete id handler here

theorem Alone.request (alone : Alone libraries server) {chunks : List Chunk}
    (complete : fileOpen chunks = false) :
    Alone libraries (server.put id server.files server.placed (newHandler chunks)) := by
  refine alone.put (.inr ⟨?_, .inl rfl⟩) (Grows.refl server) ?_ complete ?_
  · intro holding
    rcases holding with ⟨_, begun⟩ | isOpen
    · cases begun
    · cases isOpen
  · intro _
    refine ⟨⟨?_, fun _ => rfl, rfl, ?_⟩, rfl, rfl⟩
    · intro begun
      cases begun
    · intro named
      cases named
  · intro path trainArgs extracted replied
    cases replied

theorem Alone.disconnect (alone : Alone libraries server)
    (here : server.uploads id = some handler) :
    Alone libraries (server.put id server.files server.placed
      { handler with reply := some (except config handler .clientDisconnect) }) := by
  refine alone.put ?_ (Grows.refl server) ?_ (alone.complete id handler here) ?_
  · by_cases holding : handler.Holding
    · exact .inl (alone.othersAway here holding)
    · refine .inr ⟨?_, .inl rfl⟩
      intro after
      rcases after with ⟨unanswered, _⟩ | holds
      · cases unanswered
      · exact holding (.inr holds)
  · intro unanswered
    cases unanswered
  · intro path trainArgs extracted replied
    exact absurd (Option.some.inj replied) (except_not_returned _ _ _ _)

theorem Alone.spill (alone : Alone libraries server) (here : server.uploads id = some handler)
    {writer : Writer UInt8} (opened : handler.file.fd = some writer) (count : Nat) :
    Alone libraries (server.put id (server.files.spill writer count).1 server.placed
      { handler with
        file := { handler.file with fd := some (server.files.spill writer count).2 } }) := by
  have holding : handler.Holding := .inr (by rw [opened]; rfl)
  refine alone.put (.inl (alone.othersAway here holding)) (Grows.refl server) ?_
    (alone.complete id handler here) (alone.own id handler here)
  intro waiting
  have receives := alone.receives id handler here waiting
  have isSome := receives.isOpen
  rw [opened] at isSome
  have keeps := alone.keeps id handler here waiting
  refine ⟨⟨?_, ?_, isSome, receives.named⟩, keeps.params, keeps.begun⟩
  · intro begun
    have tracks := receives.tracks begun
    rw [opened] at tracks
    exact ⟨tracks.1.spill count, tracks.2⟩
  · intro still
    rw [receives.shut still] at opened
    cases opened

theorem Alone.release (alone : Alone libraries server) (here : server.uploads id = some handler)
    {reply : Reply Args Member} (replied : handler.reply = some reply)
    {writer : Writer UInt8} (opened : handler.file.fd = some writer) :
    Alone libraries (server.put id (server.files.close writer) server.placed
      { handler with file := { handler.file with fd := none } }) := by
  have holding : handler.Holding := .inr (by rw [opened]; rfl)
  refine alone.put (.inl (alone.othersAway here holding)) (Grows.refl server) ?_
    (alone.complete id handler here) (alone.own id handler here)
  intro waiting
  rw [show handler.reply = none from waiting] at replied
  cases replied

/-- Every event keeps the uploads apart. -/
theorem Alone.step (alone : Alone libraries server) {event : Event}
    (exclusive : Exclusive config libraries server event) :
    Alone libraries (server.step config libraries event) := by
  cases event with
  | request id chunks =>
      rw [Server.step]
      split
      · exact alone
      · exact alone.request exclusive
  | chunk id =>
      rw [Server.step]
      split
      · exact alone
      · rename_i handler here
        split
        · rename_i chunk rest waiting coming
          obtain ⟨away, apart⟩ := exclusive handler chunk rest here coming
          exact alone.chunk here waiting coming away (apart waiting)
        · exact alone
  | disconnect id =>
      rw [Server.step]
      split
      · exact alone
      · rename_i handler here
        split
        · exact alone
        · exact alone.disconnect here
  | spill id count =>
      rw [Server.step]
      split
      · exact alone
      · rename_i handler here
        split
        · exact alone
        · rename_i writer opened
          exact alone.spill here opened count
  | release id =>
      rw [Server.step]
      split
      · exact alone
      · rename_i handler here
        split
        · rename_i reply writer replied opened
          exact alone.release here replied opened
        · exact alone

theorem step_other {event : Event} {other : Nat} (different : other ≠ event.id) :
    (server.step config libraries event).uploads other = server.uploads other := by
  have put (files : Files UInt8) (placed : List (Placed Member))
      (handler : Handler Args Member) :
      (server.put event.id files placed handler).uploads other = server.uploads other :=
    Function.update_of_ne different _ _
  cases event with
  | request id chunks =>
      rw [Server.step]
      split
      · rfl
      · exact put _ _ _
  | chunk id =>
      rw [Server.step]
      split
      · rfl
      · split
        · exact put _ _ _
        · rfl
  | disconnect id =>
      rw [Server.step]
      split
      · rfl
      · split
        · rfl
        · exact put _ _ _
  | spill id count =>
      rw [Server.step]
      split
      · rfl
      · split
        · rfl
        · exact put _ _ _
  | release id =>
      rw [Server.step]
      split
      · rfl
      · split
        · exact put _ _ _
        · rfl

theorem alone_started (files : Files UInt8) (placed : List (Placed Member)) :
    Alone libraries (started files placed : Server Args Member) where
  one := by
    intro id handler other another there
    cases there
  receives := by
    intro id handler there
    cases there
  keeps := by
    intro id handler there
    cases there
  complete := by
    intro id handler there
    cases there
  own := by
    intro id handler there
    cases there

end Isolation

section Overlap

def archiveA : Bytes :=
  [31, 139, 8, 0, 0, 0, 0, 0, 2, 255, 75, 100, 160, 61, 48, 0, 2, 51, 19, 19, 48, 13, 4, 232, 52,
    22, 182, 153, 129, 185, 25, 131, 130, 1, 29, 220, 198, 80, 90, 92, 146, 88, 4, 180, 146, 97,
    20, 140, 130, 81, 48, 10, 70, 22, 0, 0, 140, 56, 170, 46, 0, 6, 0, 0]

def archiveB : Bytes :=
  [31, 139, 8, 0, 0, 0, 0, 0, 2, 255, 75, 98, 160, 61, 48, 0, 2, 51, 19, 19, 48, 13, 4, 232, 52,
    22, 182, 153, 129, 185, 57, 131, 130, 1, 29, 220, 198, 80, 90, 92, 146, 88, 4, 180, 146, 97,
    20, 140, 130, 81, 48, 10, 70, 22, 0, 0, 211, 152, 85, 50, 0, 6, 0, 0]

def hashA : String := "2f8d16f6fa3539f97613ad64c029d090da754aee2dc567daa6eceaad500f12b9"

def hashB : String := "f94d22c320ef45a7715c7bcc2382594e0c18601e4ca52122857aad7bbff6b436"

def hashArgs (datasetHash : String) : Bytes :=
  ("\x7b\"dataset_hash\": \"" ++ datasetHash ++ "\"\x7d").toUTF8.data.toList

def knownHashes : List (Bytes × String) :=
  [(archiveA, hashA), (archiveB, hashB),
    (hashArgs hashA, "3997e8ac1e528d464118bd3d4ac716394bfa1493e6a765dda6651b80a1346bfc"),
    (hashArgs hashB, "4c429b23ec988690bb2eac33c281dff462979a8610450d34064e69ced54be6db")]

def twoArchives : Libraries Unit String where
  sha256 bytes := ((knownHashes.find? fun known => known.1 == bytes).map Prod.snd).getD ""
  loads _ := .ok ()
  dumps _ := hashArgs
  extractall archive directory _ :=
    ⟨[(directory, if archive == archiveA then "a" else "b")], none⟩
  copyMl _ := .ok ()

def smallServer : Config where
  maxUploadFileSize := 1000000
  trainingJobDirectory := "/app/cray/jobs"
  tempDirectory := "/tmp"

def noFiles : Files UInt8 := ⟨none, fun _ => [], 0⟩

def wholeBody (archive : Bytes) : Chunk where
  size := 400
  parts := [.fileStart true, .fileData archive, .fileFinish, .paramsData [123, 125]]

/-- The first upload has its file complete when the second one writes its own over it; the end
of the first stream is still to come. -/
def overlapping : List Event :=
  [.request 0 [wholeBody archiveA, ⟨0, []⟩], .request 1 [wholeBody archiveB, ⟨0, []⟩],
    .chunk 0, .chunk 1, .chunk 0]

end Overlap

end ScalarLM.Upload
