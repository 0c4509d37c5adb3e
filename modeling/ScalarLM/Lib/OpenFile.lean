import Mathlib.Data.List.Basic
import Mathlib.Logic.Function.Basic
import Mathlib.Tactic.Common
import ScalarLM.Lib.Overwrite

/-! A file under a name, and the buffered writers that have it open. -/

namespace ScalarLM.OpenFile

open Blocks

variable {Byte : Type}

/-- The files that have been opened under one name. A file stays when its name is removed. -/
structure Files (Byte : Type) where
  entry : Option Nat
  content : Nat → List Byte
  fresh : Nat

/-- A file that is open for writing: what is written stays in the buffer for some time. -/
structure Writer (Byte : Type) where
  file : Nat
  offset : Nat
  buffer : List Byte

def writeAt [Zero Byte] (content : List Byte) (offset : Nat) (bytes : List Byte) : List Byte :=
  if bytes = [] then content
  else overwrite (content ++ List.replicate (offset - content.length) 0) offset bytes

def Files.put (files : Files Byte) (file : Nat) (content : List Byte) : Files Byte :=
  { files with content := Function.update files.content file content }

/-- Opening for writing empties the file that has the name, or makes one. -/
def Files.openWrite (files : Files Byte) : Files Byte × Writer Byte :=
  match files.entry with
  | some file => (files.put file [], ⟨file, 0, []⟩)
  | none =>
      ({ files.put files.fresh [] with entry := some files.fresh, fresh := files.fresh + 1 },
        ⟨files.fresh, 0, []⟩)

def Writer.write (writer : Writer Byte) (bytes : List Byte) : Writer Byte :=
  { writer with buffer := writer.buffer ++ bytes }

def Files.spill [Zero Byte] (files : Files Byte) (writer : Writer Byte) (count : Nat) :
    Files Byte × Writer Byte :=
  (files.put writer.file
      (writeAt (files.content writer.file) writer.offset (writer.buffer.take count)),
    { writer with
      offset := writer.offset + (writer.buffer.take count).length
      buffer := writer.buffer.drop count })

def Files.close [Zero Byte] (files : Files Byte) (writer : Writer Byte) : Files Byte :=
  (files.spill writer writer.buffer.length).1

def Files.remove (files : Files Byte) : Files Byte := { files with entry := none }

/-- The bytes are in the file or still in the buffer of its only writer. -/
structure Holds (files : Files Byte) (writer : Writer Byte) (bytes : List Byte) : Prop where
  written : files.content writer.file ++ writer.buffer = bytes
  atEnd : writer.offset = (files.content writer.file).length

theorem writeAt_end [Zero Byte] (content bytes : List Byte) :
    writeAt content content.length bytes = content ++ bytes := by
  rw [writeAt]
  split
  · rename_i empty
    rw [empty, List.append_nil]
  · simp [overwrite]

theorem openWrite_holds (files : Files Byte) : Holds files.openWrite.1 files.openWrite.2 [] := by
  rw [Files.openWrite]
  split <;> exact ⟨by simp [Files.put], by simp [Files.put]⟩

variable {files : Files Byte} {writer : Writer Byte} {bytes : List Byte}

theorem Holds.write (holds : Holds files writer bytes) (more : List Byte) :
    Holds files (writer.write more) (bytes ++ more) where
  written := by
    rw [← holds.written, List.append_assoc]
    rfl
  atEnd := holds.atEnd

variable [Zero Byte]

theorem spill_content (holds : Holds files writer bytes) (count : Nat) :
    (files.spill writer count).1.content writer.file =
      files.content writer.file ++ writer.buffer.take count := by
  rw [Files.spill, Files.put]
  dsimp only
  rw [Function.update_self, holds.atEnd, writeAt_end]

theorem Holds.spill (holds : Holds files writer bytes) (count : Nat) :
    Holds (files.spill writer count).1 (files.spill writer count).2 bytes where
  written := by
    rw [show (files.spill writer count).2.file = writer.file from rfl, spill_content holds,
      List.append_assoc, show (files.spill writer count).2.buffer = writer.buffer.drop count from
      rfl, List.take_append_drop]
    exact holds.written
  atEnd := by
    rw [show (files.spill writer count).2.file = writer.file from rfl, spill_content holds,
      List.length_append, ← holds.atEnd]
    rfl

theorem close_content (holds : Holds files writer bytes) :
    (files.close writer).content writer.file = bytes := by
  rw [Files.close, spill_content holds, List.take_length]
  exact holds.written

end ScalarLM.OpenFile
