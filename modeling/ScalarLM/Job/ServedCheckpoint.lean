import Mathlib.Data.List.Perm.Basic
import Mathlib.Data.Set.List
import ScalarLM.Job.CheckpointFiles
import ScalarLM.Lib.Decimal
import ScalarLM.Lib.Transition

/-! The checkpoint files of a job directory by their names, and which of them a resuming job
and the server pick from a listing. -/

namespace ScalarLM.Job

open Decimal Transition

section Names

abbrev FileName := List Char

def checkpointPrefix : List Char := ['c', 'h', 'e', 'c', 'k', 'p', 'o', 'i', 'n', 't', '_']

def ptSuffix : List Char := ['.', 'p', 't']

def checkpointName (step : Nat) : FileName :=
  checkpointPrefix ++ (Nat.toDigits 10 step ++ ptSuffix)

def isCheckpointFile (name : FileName) : Bool :=
  checkpointPrefix.isPrefixOf name && ptSuffix.isSuffixOf name

def stepInName (name : FileName) : Option Int := do
  let part ← (name.splitOn '_')[1]?
  let digits ← (part.splitOn '.')[0]?
  readInt digits

def maxByKey : List (Int × FileName) → Option (Int × FileName)
  | [] => none
  | entry :: rest =>
      match maxByKey rest with
      | none => some entry
      | some best => if entry.1 < best.1 then some best else some entry

/-- `get_latest_checkpoint_path` on a listing of the job directory. It raises when a name has
no step in it, and there may be no checkpoint. -/
def getLatestCheckpointPath (listing : List FileName) : Option (Option FileName) := do
  let keyed ← (listing.filter isCheckpointFile).mapM fun name =>
    (stepInName name).map fun step => (step, name)
  some ((maxByKey keyed).map Prod.snd)

def fromLocalCheckpointFile (listing : List FileName) : Option FileName :=
  (listing.filter ptSuffix.isSuffixOf).head?

end Names

/-- A job directory: its checkpoint files by their steps, and its other files. -/
structure JobDirectory (Content : Type) where
  files : Dict Nat Content
  others : List FileName
  apart : ∀ name ∈ others, ptSuffix.isSuffixOf name = false

inductive DirectoryEvent (Content : Type) where
  /-- `torch.save`; what is written may not be all of it. -/
  | save (step : Nat) (content : Content)
  /-- `delete_old_checkpoints`, which removes one file after the other and may be stopped. -/
  | deleteOld (maxCheckpointsToKeep : Int) (removed : Nat)

section Directories

variable {Content : Type}

def JobDirectory.step (directory : JobDirectory Content) :
    DirectoryEvent Content → JobDirectory Content
  | .save step content => { directory with files := directory.files.set step content }
  | .deleteOld maxCheckpointsToKeep removed =>
      { directory with
        files := ((oldCheckpoints maxCheckpointsToKeep directory.files).take removed).foldl
          (fun files step => files.erase step) directory.files }

def JobDirectory.names (directory : JobDirectory Content) : List FileName :=
  directory.files.keys.map checkpointName ++ directory.others

/-- `os.listdir`, or a glob, in whatever order. -/
def JobDirectory.Lists (directory : JobDirectory Content) (listing : List FileName) : Prop :=
  listing.Perm directory.names

end Directories

section Steps

theorem isCheckpointFile_checkpointName (step : Nat) :
    isCheckpointFile (checkpointName step) = true := by
  rw [isCheckpointFile, Bool.and_eq_true, List.isPrefixOf_iff_prefix, List.isSuffixOf_iff_suffix]
  refine ⟨List.prefix_append _ _, ?_⟩
  rw [checkpointName, ← List.append_assoc]
  exact List.suffix_append _ _

theorem stepInName_digits (text : List Char) (digits : ∀ char ∈ text, char.isDigit = true) :
    stepInName (checkpointPrefix ++ (text ++ ptSuffix)) = readInt text := by
  have joined : checkpointPrefix ++ (text ++ ptSuffix) = ['_'].intercalate
      [['c', 'h', 'e', 'c', 'k', 'p', 'o', 'i', 'n', 't'], text ++ ptSuffix] := by
    simp [checkpointPrefix, List.intercalate]
  have parts : (checkpointPrefix ++ (text ++ ptSuffix)).splitOn '_' =
      [['c', 'h', 'e', 'c', 'k', 'p', 'o', 'i', 'n', 't'], text ++ ptSuffix] := by
    rw [joined]
    refine List.splitOn_intercalate '_' ?_ (List.cons_ne_nil _ _)
    have absent := not_mem_of_digits '_' (by decide) _ digits
    simp [ptSuffix, absent]
  have pieces : (text ++ ptSuffix).splitOn '.' = [text, ['p', 't']] := by
    have absent := not_mem_of_digits '.' (by decide) _ digits
    have both : text ++ ptSuffix = ['.'].intercalate [text, ['p', 't']] := by
      simp [ptSuffix, List.intercalate]
    rw [both]
    refine List.splitOn_intercalate '.' ?_ (List.cons_ne_nil _ _)
    simp [absent]
  rw [stepInName, parts]
  simp only [List.getElem?_cons_succ, List.getElem?_cons_zero, Option.bind_eq_bind,
    Option.bind_some, pieces]

theorem stepInName_checkpointName (step : Nat) :
    stepInName (checkpointName step) = some (step : Int) := by
  have digits := isDigit_toDigits step
  rw [checkpointName, stepInName_digits _ digits, readInt_of_digits _ digits, readNat_toDigits]
  rfl

theorem checkpointName_injective : Function.Injective checkpointName := by
  intro left right same
  have steps := congrArg stepInName same
  rw [stepInName_checkpointName, stepInName_checkpointName, Option.some.injEq] at steps
  exact Int.ofNat_inj.mp steps

theorem maxByKey_none_iff (entries : List (Int × FileName)) :
    maxByKey entries = none ↔ entries = [] := by
  cases entries with
  | nil => simp [maxByKey]
  | cons entry rest =>
      rw [maxByKey]
      split
      · simp
      · split <;> simp

theorem maxByKey_some (entries : List (Int × FileName)) (best : Int × FileName)
    (found : maxByKey entries = some best) :
    best ∈ entries ∧ ∀ other ∈ entries, other.1 ≤ best.1 := by
  induction entries generalizing best with
  | nil => cases found
  | cons entry rest ih =>
      rw [maxByKey] at found
      cases later : maxByKey rest with
      | none =>
          rw [later, Option.some.injEq] at found
          rw [(maxByKey_none_iff rest).mp later, ← found]
          exact ⟨List.mem_cons_self, List.forall_mem_singleton.mpr le_rfl⟩
      | some candidate =>
          obtain ⟨member, bound⟩ := ih candidate later
          rw [later] at found
          dsimp only at found
          split at found
          · rename_i less
            cases found
            exact ⟨List.mem_cons_of_mem _ member, List.forall_mem_cons.mpr ⟨less.le, bound⟩⟩
          · rename_i least
            cases found
            refine ⟨List.mem_cons_self, List.forall_mem_cons.mpr ⟨le_rfl, ?_⟩⟩
            exact fun other present => (bound other present).trans (not_lt.mp least)

end Steps

section Listings

variable {Content : Type} {directory : JobDirectory Content} {listing : List FileName}

theorem ptSuffix_checkpointName (step : Nat) :
    ptSuffix.isSuffixOf (checkpointName step) = true :=
  (Bool.and_eq_true_iff.mp (isCheckpointFile_checkpointName step)).2

/-- A test that all checkpoint files pass, and only names with the suffix, selects them. -/
theorem filter_listing (test : FileName → Bool) (lists : directory.Lists listing)
    (passes : ∀ step, test (checkpointName step) = true)
    (suffixed : ∀ name, test name = true → ptSuffix.isSuffixOf name = true) :
    ∃ steps : List Nat, steps.Perm directory.files.keys ∧
      listing.filter test = steps.map checkpointName := by
  have selected : (listing.filter test).Perm (directory.files.keys.map checkpointName) := by
    have kept : (directory.files.keys.map checkpointName).filter test =
        directory.files.keys.map checkpointName :=
      List.filter_eq_self.mpr (List.forall_mem_map.mpr fun step _ => passes step)
    have dropped : directory.others.filter test = [] := by
      refine List.filter_eq_nil_iff.mpr fun name member passed => ?_
      have apart := directory.apart name member
      rw [suffixed name passed] at apart
      cases apart
    have filtered := lists.filter test
    rw [JobDirectory.names, List.filter_append, kept, dropped, List.append_nil] at filtered
    exact filtered
  have named : listing.filter test ∈ Set.range (List.map checkpointName) := by
    rw [Set.range_list_map]
    intro name member
    obtain ⟨step, _, same⟩ := List.mem_map.mp (selected.mem_iff.mp member)
    exact ⟨step, same⟩
  obtain ⟨steps, same⟩ := named
  rw [← same] at selected
  exact ⟨steps, (List.map_perm_map_iff checkpointName_injective).mp selected, same.symm⟩

theorem getLatestCheckpointPath_listing (lists : directory.Lists listing) :
    getLatestCheckpointPath listing = some ((getLatestCheckpoint directory.files).map
      fun latest => checkpointName latest.1) := by
  obtain ⟨steps, same, files⟩ := filter_listing isCheckpointFile lists
    isCheckpointFile_checkpointName fun name passed => (Bool.and_eq_true_iff.mp passed).2
  have keyed : (steps.map checkpointName).mapM
      (fun name => (stepInName name).map fun step => (step, name)) =
        some (steps.map fun step : Nat => ((step : Int), checkpointName step)) := by
    have each : (fun name => (stepInName name).map fun step => (step, name)) ∘ checkpointName =
        fun step : Nat => some ((step : Int), checkpointName step) := by
      funext step
      rw [Function.comp_apply, stepInName_checkpointName]
      rfl
    rw [List.mapM_map, each]
    exact List.mapM_pure
  rw [getLatestCheckpointPath, files, keyed]
  simp only [Option.bind_eq_bind, Option.bind_some, Option.some.injEq]
  cases best : maxByKey (steps.map fun step : Nat => ((step : Int), checkpointName step)) with
  | none =>
      have empty := List.map_eq_nil_iff.mp ((maxByKey_none_iff _).mp best)
      rw [empty] at same
      rw [(getLatestCheckpoint_none _).mpr same.nil_eq.symm]
      rfl
  | some entry =>
      obtain ⟨member, bound⟩ := maxByKey_some _ _ best
      obtain ⟨step, present, rfl⟩ := List.mem_map.mp member
      obtain ⟨content, held⟩ := (Dict.mem_keys _ _).mp (same.mem_iff.mp present)
      have latest : getLatestCheckpoint directory.files = some (step, content) := by
        refine (getLatestCheckpoint_some _ _ _).mpr ⟨held, ?_⟩
        intro other there
        exact Int.ofNat_le.mp (bound _ (List.mem_map.mpr ⟨other, same.mem_iff.mpr there, rfl⟩))
      rw [latest]
      rfl

end Listings

section Selection

variable {Content : Type}

/-- Whatever the order of the listings, the server loads the file that a job resumes from. -/
def ServesLatest (directory : JobDirectory Content) : Prop :=
  ∀ served resumed, directory.Lists served → directory.Lists resumed →
    getLatestCheckpointPath resumed = some (fromLocalCheckpointFile served)

theorem servesLatest_iff (directory : JobDirectory Content) :
    ServesLatest directory ↔ directory.files.keys.length ≤ 1 := by
  constructor
  · intro serves
    by_contra more
    obtain ⟨first, second, rest, listed⟩ : ∃ first second rest,
        directory.files.keys = first :: second :: rest := by
      cases listed : directory.files.keys with
      | nil => simp [listed] at more
      | cons first others =>
          cases others with
          | nil => simp [listed] at more
          | cons second rest => exact ⟨first, second, rest, rfl⟩
    have names : directory.names = checkpointName first :: checkpointName second ::
        (rest.map checkpointName ++ directory.others) := by
      rw [JobDirectory.names, listed]
      rfl
    have picked (step : Nat) (others : List FileName) :
        fromLocalCheckpointFile (checkpointName step :: others) = some (checkpointName step) := by
      rw [fromLocalCheckpointFile, List.filter_cons_of_pos (ptSuffix_checkpointName step)]
      rfl
    have one := serves _ _ (List.Perm.refl _) (List.Perm.refl directory.names)
    have other := serves (checkpointName second :: checkpointName first ::
      (rest.map checkpointName ++ directory.others)) _
      (by rw [JobDirectory.Lists, names]; exact List.Perm.swap _ _ _) (List.Perm.refl _)
    rw [names, picked] at one
    rw [names, picked, one, Option.some.injEq, Option.some.injEq] at other
    have distinct := directory.files.nodup
    rw [show directory.files.entries.map Prod.fst = _ from listed, List.nodup_cons] at distinct
    exact distinct.1 (checkpointName_injective other ▸ List.mem_cons_self)
  · intro few served resumed lists again
    obtain ⟨steps, same, files⟩ := filter_listing ptSuffix.isSuffixOf lists
      ptSuffix_checkpointName fun _ passed => passed
    rw [getLatestCheckpointPath_listing again, fromLocalCheckpointFile, files]
    have short : steps = directory.files.keys := by
      match listed : directory.files.keys, few with
      | [], _ => exact (listed ▸ same).eq_nil
      | [step], _ => exact List.perm_singleton.mp (listed ▸ same)
    rw [short]
    cases latest : getLatestCheckpoint directory.files with
    | none =>
        rw [(getLatestCheckpoint_none _).mp latest]
        rfl
    | some entry =>
        obtain ⟨member, _⟩ := (getLatestCheckpoint_some _ _ _).mp latest
        have present := (Dict.mem_keys _ _).mpr ⟨_, member⟩
        match listed : directory.files.keys, few with
        | [step], _ =>
            rw [listed, List.mem_singleton] at present
            rw [← present]
            rfl
        | [], _ =>
            rw [listed] at present
            cases present

/-- After any saves and deletes, resuming and serving pick the same file from all listings
exactly when there is no more than one checkpoint. -/
theorem serving_resuming_iff (directory : JobDirectory Content)
    (events : List (DirectoryEvent Content)) :
    ServesLatest (run JobDirectory.step directory events) ↔
      (run JobDirectory.step directory events).files.keys.length ≤ 1 :=
  servesLatest_iff _

def emptyDirectory : JobDirectory Nat := ⟨.empty, [], List.forall_mem_nil _⟩

/-- Two checkpoints within the number to keep, of which the glob gives the older one first. -/
theorem serving_not_resuming :
    ¬ ∀ (directory : JobDirectory Nat) (events : List (DirectoryEvent Nat)),
      directory.files.keys = [] → ServesLatest (run JobDirectory.step directory events) := by
  intro claimed
  have serves := claimed emptyDirectory
    [.save 9 1, .deleteOld 3 0, .save 10 2, .deleteOld 3 0] rfl
    [checkpointName 9, checkpointName 10] [checkpointName 10, checkpointName 9]
    (List.Perm.refl _) (List.Perm.swap _ _ _)
  exact absurd serves (by decide)

end Selection

end ScalarLM.Job
