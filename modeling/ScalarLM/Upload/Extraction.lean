import Mathlib.Data.Char
import Mathlib.Data.List.Lex
import Mathlib.Data.List.Sort
import ScalarLM.Lib.FileTree
import ScalarLM.Lib.Program

/-! What `upload_training_data` does to the file system once the tarball has arrived, as the system
calls that it makes: the job directory, the members of the archive, the `ml` directory. -/

namespace ScalarLM.Upload

open FileTree ScalarLM.Computation

/-- A member of an archive, by its type. A link comes with the member that `_find_link_target`
finds for it, and that with its own. -/
inductive MemberType where
  | file (contents : List UInt8)
  | directory
  | special
  | symlink (linkname : List Char) (found : MemberType)
  | hardlink (linkname : List Char) (found : MemberType)
  /-- `_find_link_target` finds nothing. -/
  | missing

structure Member where
  name : List Char
  type : MemberType

/-- The members that can be read, and whether reading fails behind them. -/
structure Archive where
  members : List Member
  broken : Bool

inductive Stop where
  | fileExists
  | osError
  | keyError
  | extractError
  | readError
  deriving DecidableEq

/-- Each system call is issued together with the tree that it finds. -/
abbrev Extraction (ρ : Type) := Computation Tree (Tree × Call) Stop ρ

section Calls

def perform (call : Call) : Extraction Unit := fun tree =>
  ⟨[(tree, call)], tree.after call,
    match tree.effect call with
    | .ok _ => .ok ()
    | .error .exists => .error .fileExists
    | .error .other => .error .osError⟩

def Stop.isOSError (stop : Stop) : Bool := stop = .fileExists || stop = .osError

def mkdirOr (existOk : Bool) (path : List Name) : Extraction Unit :=
  (perform (.mkdir path)).catches fun cause =>
    (reads fun tree => tree.isdir path).andThen fun isdir =>
      if existOk && isdir then returns () else throws cause

def passing (stop : Stop) (extraction : Extraction Unit) : Extraction Unit :=
  extraction.catches fun cause => if cause = stop then returns () else throws cause

/-- `os.makedirs`, of a path that is given backwards. -/
def makedirsBack (existOk : Bool) : List Name → Extraction Unit
  | [] => mkdirOr existOk []
  | tail :: head =>
      (reads fun tree => tree.exists head.reverse).andThen fun there =>
        if there then mkdirOr existOk (tail :: head).reverse
        else
          (passing .fileExists (makedirsBack existOk head)).andThen fun _ =>
          if tail = dot then returns () else mkdirOr existOk (tail :: head).reverse

def makedirs (existOk : Bool) (path : List Name) : Extraction Unit :=
  makedirsBack existOk path.reverse

end Calls

section Members

variable (existOk : Bool) (jobDirectory : Place)

def targetPath (name : List Char) : List Name :=
  if absolute name then parts name else jobDirectory ++ parts name

def upperdirs (path : List Name) : Extraction Unit :=
  (reads fun tree => tree.exists path.dropLast).andThen fun there =>
    if there then returns () else makedirs existOk path.dropLast

def setAttributes (call : Call) : Extraction Unit :=
  (perform call).catches fun _ => throws .extractError

def makedir (path : List Name) : Extraction Unit :=
  (perform (.mkdir path)).catches fun cause =>
    (reads fun tree => tree.isdir path).andThen fun isdir =>
      if cause = .fileExists && isdir then returns () else throws cause

def makeSymlink (linkname : List Char) (path : List Name) : Extraction Unit :=
  (reads fun tree => tree.lexists path).andThen fun there =>
    (if there then perform (.unlink path) else returns ()).andThen fun _ =>
      perform (.symlink linkname path)

/-- `os.link` where there is something to link to, and else what is found in the archive. -/
def makeHardlink (linkname : List Char) (path : List Name) (found : Extraction Unit) :
    Extraction Unit :=
  (reads fun tree => tree.exists (targetPath jobDirectory linkname)).andThen fun there =>
    if there then perform (.link (targetPath jobDirectory linkname) path) else found

/-- `makelink`: where the link cannot be made, what it stands for in the archive is extracted. -/
def orFound (link found : Extraction Unit) : Extraction Unit :=
  link.catches fun cause =>
    if cause.isOSError then
      found.catches fun again =>
        throws (if again = .keyError then .extractError else again)
    else throws cause

def extractMember (path : List Name) : MemberType → Bool → Extraction Unit
  | .missing, _ => throws .keyError
  | .file contents, setAttrs =>
      (upperdirs existOk path).andThen fun _ =>
        (perform (.write path contents)).andThen fun _ =>
          if setAttrs then setAttributes (.setAttributes path) else returns ()
  | .directory, setAttrs =>
      (upperdirs existOk path).andThen fun _ =>
        (makedir path).andThen fun _ =>
          if setAttrs then setAttributes (.setAttributes path) else returns ()
  | .special, setAttrs =>
      (upperdirs existOk path).andThen fun _ =>
        (perform (.mknod path)).andThen fun _ =>
          if setAttrs then setAttributes (.setAttributes path) else returns ()
  | .symlink linkname found, setAttrs =>
      (upperdirs existOk path).andThen fun _ =>
        (orFound (makeSymlink linkname path) (extractMember path found true)).andThen fun _ =>
          if setAttrs then setAttributes (.setLinkAttributes path) else returns ()
  | .hardlink linkname found, setAttrs =>
      (upperdirs existOk path).andThen fun _ =>
        (orFound (makeHardlink jobDirectory linkname path (extractMember path found true))
            (extractMember path found true)).andThen fun _ =>
          if setAttrs then setAttributes (.setAttributes path) else returns ()

def MemberType.isdir : MemberType → Bool
  | .directory => true
  | _ => false

/-- Errors about links and attributes are logged and no more. -/
def nonfatal (extraction : Extraction Unit) : Extraction Unit := passing .extractError extraction

/-- `_extract_one`. A path that is empty cannot be opened. -/
def extractOne (member : Member) : Extraction Unit :=
  let path := targetPath jobDirectory member.name
  if path = [] then throws .osError
  else nonfatal (extractMember existOk jobDirectory path member.type (!member.type.isdir))

def sortedDirectories (members : List Member) : List Member :=
  (members.filter fun member => member.type.isdir).insertionSort
    fun first second => second.name ≤ first.name

/-- `tar.extractall`, without a filter. -/
def extractall (archive : Archive) : Extraction Unit :=
  (forEach (extractOne existOk jobDirectory) archive.members).andThen fun _ =>
    if archive.broken then throws .readError
    else forEach (fun member => nonfatal (setAttributes (.setAttributes
      (targetPath jobDirectory member.name)))) (sortedDirectories archive.members)

def mlName : Name := ['m', 'l']

/-- An entry of the `ml` directory that is copied: a directory, or a file with its contents. -/
def copyEntry (entry : List Name × Option (List UInt8)) : Extraction Unit :=
  let path := jobDirectory ++ mlName :: entry.1
  (match entry.2 with
    | none => makedirs false path
    | some contents => (perform (.write path contents)).andThen fun _ =>
        perform (.setAttributes path)).catches fun _ => returns ()

/-- The `ml` directory is copied if the job directory has none. `shutil.copytree` goes on after
an error below the directory itself. -/
def copyMl (ml : List (List Name × Option (List UInt8))) : Extraction Unit :=
  (reads fun tree => tree.exists (jobDirectory ++ [mlName])).andThen fun there =>
    if there then returns ()
    else (makedirs false (jobDirectory ++ [mlName])).andThen fun _ =>
      (forEach (copyEntry jobDirectory) ml).andThen fun _ =>
        perform (.setAttributes (jobDirectory ++ [mlName]))

/-- `upload_training_data` from `os.makedirs` on, without the temporary file. -/
def unpack (archive : Archive) (ml : List (List Name × Option (List UInt8))) : Extraction Unit :=
  (makedirs true jobDirectory).andThen fun _ =>
    (extractall existOk jobDirectory archive).andThen fun _ => copyMl jobDirectory ml

end Members

end ScalarLM.Upload
