import Mathlib.Data.List.DropRight
import Mathlib.Data.List.Pairwise
import ScalarLM.Job.ServedCheckpoint

/-! Which checkpoint files of a job directory a save leaves, by their names, whatever the order
in which the directory is listed. -/

namespace ScalarLM.Job

open Decimal Slice

variable {Content : Type}

section Deletion

/-- `sorted` with a key, which keeps the order of entries with one key. -/
def sortedByKey (entries : List (Int × FileName)) : List (Int × FileName) :=
  entries.insertionSort fun left right => left.1 ≤ right.1

/-- `os.remove` of one file after the other. It raises when there is no such file. -/
def removeFiles (names : List FileName) (directory : Dict FileName Content) :
    Option (Dict FileName Content) :=
  names.foldlM (fun directory name =>
    if (directory.get? name).isSome then some (directory.erase name) else none) directory

/-- `delete_old_checkpoints` on a listing of the job directory. It raises when a name has no
step in it. -/
def deleteOldCheckpoints (maxCheckpointsToKeep : Int) (listing : List FileName)
    (directory : Dict FileName Content) : Option (Dict FileName Content) := do
  let checkpointFiles := listing.filter isCheckpointFile
  if checkpointFiles.isEmpty then return directory
  let keyed ← checkpointFiles.mapM fun name => (stepInName name).map fun step => (step, name)
  let sortedCheckpoints := (sortedByKey keyed).map Prod.snd
  if maxCheckpointsToKeep < sortedCheckpoints.length then
    removeFiles (sliceTo sortedCheckpoints (-maxCheckpointsToKeep)) directory
  else return directory

/-- An order in which `os.listdir` may give the names of a directory. -/
structure ListingOrder where
  order : List FileName → List FileName
  perm : ∀ names, (order names).Perm names

structure SaveCall (Content : Type) where
  step : Nat
  content : Content
  listdir : ListingOrder

/-- `save_checkpoint` on the main rank: the file is written, then old ones are deleted. -/
def SaveCall.saveCheckpoint (maxCheckpointsToKeep : Int) (directory : Dict FileName Content)
    (call : SaveCall Content) : Option (Dict FileName Content) :=
  let written := directory.set (checkpointName call.step) call.content
  deleteOldCheckpoints maxCheckpointsToKeep (call.listdir.order written.keys) written

end Deletion

section Numbered

def IsNumbered (name : FileName) : Prop :=
  ∃ digits : List Char, digits ≠ [] ∧ (∀ char ∈ digits, char.isDigit = true) ∧
    name = checkpointPrefix ++ (digits ++ ptSuffix)

def checkpointNames (directory : Dict FileName Content) : List FileName :=
  directory.keys.filter isCheckpointFile

/-- The checkpoint files have numbers, and no two have one step. Other files may be there. -/
structure DistinctSteps (directory : Dict FileName Content) : Prop where
  numbered : ∀ name ∈ checkpointNames directory, IsNumbered name
  distinct : ∀ left ∈ checkpointNames directory, ∀ right ∈ checkpointNames directory,
    stepInName left = stepInName right → left = right

/-- What is left of a directory's checkpoints: as many as there are up to a number, all with
higher steps than those that are gone. No other file is touched. -/
structure KeepsNewest (count : Nat) (before after : Dict FileName Content) : Prop where
  subset : ∀ entry ∈ after, entry ∈ before
  others : ∀ entry ∈ before, isCheckpointFile entry.1 = false → entry ∈ after
  number : (checkpointNames after).length = min (checkpointNames before).length count
  newest : ∀ removed ∈ checkpointNames before, removed ∉ after.keys →
    ∀ kept ∈ checkpointNames after, ∀ removedStep keptStep,
      stepInName removed = some removedStep → stepInName kept = some keptStep →
        removedStep < keptStep

def Earlier (left right : FileName) : Prop :=
  ∃ first second, stepInName left = some first ∧ stepInName right = some second ∧ first < second

theorem Earlier.asymm {left right : FileName} (before : Earlier left right) :
    ¬ Earlier right left := by
  intro after
  obtain ⟨first, second, atLeft, atRight, less⟩ := before
  obtain ⟨third, fourth, atRight', atLeft', more⟩ := after
  rw [atLeft, Option.some.injEq] at atLeft'
  rw [atRight, Option.some.injEq] at atRight'
  omega

theorem stepInName_numbered (name : FileName) (numbered : IsNumbered name) :
    ∃ step, stepInName name = some step := by
  obtain ⟨digits, filled, all, rfl⟩ := numbered
  rw [stepInName_digits digits all, readInt_of_digits digits all,
    readNat_of_digits digits filled all]
  exact ⟨_, rfl⟩

theorem isNumbered_checkpointName (step : Nat) : IsNumbered (checkpointName step) :=
  ⟨Nat.toDigits 10 step, Nat.toDigits_ne_nil, isDigit_toDigits step, rfl⟩

end Numbered

section Sorting

structure BySteps (listing sorted : List FileName) : Prop where
  perm : sorted.Perm (listing.filter isCheckpointFile)
  increasing : sorted.Pairwise Earlier
  steps : ∀ name ∈ sorted, ∃ step, stepInName name = some step

variable {listing sorted : List FileName}

theorem BySteps.of_perm (bySteps : BySteps listing sorted) {other : List FileName}
    (same : other.Perm listing) : BySteps other sorted :=
  ⟨bySteps.perm.trans (same.filter _).symm, bySteps.increasing, bySteps.steps⟩

theorem keyed_of_steps (names : List FileName)
    (steps : ∀ name ∈ names, ∃ step, stepInName name = some step) :
    ∃ keyed, names.mapM (fun name => (stepInName name).map fun step => (step, name)) = some keyed ∧
      keyed.map Prod.snd = names ∧ ∀ entry ∈ keyed, stepInName entry.2 = some entry.1 := by
  induction names with
  | nil => exact ⟨[], rfl, rfl, List.forall_mem_nil _⟩
  | cons name rest ih =>
      obtain ⟨⟨step, read⟩, later⟩ := List.forall_mem_cons.mp steps
      obtain ⟨keyed, all, names, each⟩ := ih later
      refine ⟨(step, name) :: keyed, ?_, ?_, List.forall_mem_cons.mpr ⟨read, each⟩⟩
      · rw [List.mapM_cons, all, read]
        rfl
      · rw [List.map_cons, names]

theorem BySteps.earlier_or (bySteps : BySteps listing sorted) {left right : FileName}
    (atLeft : left ∈ sorted) (atRight : right ∈ sorted) (different : left ≠ right) :
    Earlier left right ∨ Earlier right left := by
  have either : sorted.Pairwise fun left right => Earlier left right ∨ Earlier right left :=
    bySteps.increasing.imp Or.inl
  have : Std.Symm fun left right => Earlier left right ∨ Earlier right left :=
    ⟨fun _ _ => Or.symm⟩
  exact either.forall atLeft atRight different

theorem sortedByKey_perm (entries : List (Int × FileName)) : (sortedByKey entries).Perm entries :=
  List.perm_insertionSort _ _

theorem sortedByKey_ordered (entries : List (Int × FileName)) :
    (sortedByKey entries).Pairwise fun left right => left.1 ≤ right.1 := by
  have : Std.Total fun left right : Int × FileName => left.1 ≤ right.1 :=
    ⟨fun left right => le_total left.1 right.1⟩
  have : IsTrans (Int × FileName) fun left right => left.1 ≤ right.1 :=
    ⟨fun _ _ _ first second => first.trans second⟩
  exact List.pairwise_insertionSort _ _

theorem BySteps.sortedByKey_eq (bySteps : BySteps listing sorted)
    (keyed : List (Int × FileName)) (same : sorted.Perm (keyed.map Prod.snd))
    (each : ∀ entry ∈ keyed, stepInName entry.2 = some entry.1) :
    (sortedByKey keyed).map Prod.snd = sorted := by
  have perm := ((sortedByKey_perm keyed).map Prod.snd).trans same.symm
  have ordered : ((sortedByKey keyed).map Prod.snd).Pairwise
      fun left right => ¬ Earlier right left := by
    rw [List.pairwise_map]
    refine (sortedByKey_ordered keyed).imp_of_mem ?_
    intro left right atLeft atRight least before
    obtain ⟨first, second, atFirst, atSecond, less⟩ := before
    rw [each right ((sortedByKey_perm keyed).mem_iff.mp atRight), Option.some.injEq] at atFirst
    rw [each left ((sortedByKey_perm keyed).mem_iff.mp atLeft), Option.some.injEq] at atSecond
    omega
  refine List.Perm.eq_of_pairwise ?_ ordered (bySteps.increasing.imp Earlier.asymm) perm
  intro left right atLeft atRight notAfter notBefore
  by_contra different
  rcases bySteps.earlier_or (perm.mem_iff.mp atLeft) atRight different with before | after
  · exact notBefore before
  · exact notAfter after

theorem BySteps.getLatestCheckpointPath_eq (bySteps : BySteps listing sorted) :
    getLatestCheckpointPath listing = some sorted.getLast? := by
  obtain ⟨keyed, all, names, each⟩ := keyed_of_steps (listing.filter isCheckpointFile)
    fun name member => bySteps.steps name (bySteps.perm.mem_iff.mpr member)
  have same : sorted.Perm (keyed.map Prod.snd) := by
    rw [names]
    exact bySteps.perm
  rw [getLatestCheckpointPath, all]
  simp only [Option.bind_eq_bind, Option.bind_some, Option.some.injEq]
  rcases List.eq_nil_or_concat sorted with rfl | ⟨front, last, rfl⟩
  · rw [List.map_eq_nil_iff.mp same.nil_eq.symm]
    rfl
  · rw [List.concat_eq_append, List.getLast?_append, List.getLast?_singleton, Option.some_or]
    rw [List.concat_eq_append] at bySteps same
    have atEnd : last ∈ front ++ [last] := List.mem_append_right _ List.mem_cons_self
    obtain ⟨entry, there, atLast⟩ := List.mem_map.mp (same.mem_iff.mp atEnd)
    cases highest : maxByKey keyed with
    | none =>
        rw [(maxByKey_none_iff keyed).mp highest] at there
        cases there
    | some best =>
        obtain ⟨member, bound⟩ := maxByKey_some keyed best highest
        rw [Option.map_some, Option.some.injEq]
        by_contra different
        have atBest : best.2 ∈ front ++ [last] :=
          same.mem_iff.mpr (List.mem_map_of_mem member)
        have earlier : Earlier best.2 last := by
          rcases List.mem_append.mp atBest with before | same
          · exact (List.pairwise_append.mp bySteps.increasing).2.2 _ before _ List.mem_cons_self
          · exact absurd (List.mem_singleton.mp same) different
        obtain ⟨first, second, atFirst, atSecond, less⟩ := earlier
        have least := bound entry there
        rw [each best member, Option.some.injEq] at atFirst
        rw [← atLast, each entry there, Option.some.injEq] at atSecond
        omega

end Sorting

section Deleting

variable {listing sorted : List FileName} {directory : Dict FileName Content}

theorem removeFiles_eq (names : List FileName) (directory : Dict FileName Content)
    (distinct : names.Nodup) (there : ∀ name ∈ names, name ∈ directory.keys) :
    ∃ left, removeFiles names directory = some left ∧
      ∀ entry, entry ∈ left ↔ entry ∈ directory ∧ entry.1 ∉ names := by
  induction names generalizing directory with
  | nil => exact ⟨directory, rfl, fun entry => by simp⟩
  | cons name rest ih =>
      obtain ⟨present, later⟩ := List.forall_mem_cons.mp there
      obtain ⟨once, distinct⟩ := List.nodup_cons.mp distinct
      have found : (directory.get? name).isSome = true := by
        rw [Option.isSome_iff_ne_none, ne_eq, Dict.get?_eq_none_iff_not_mem_keys, not_not]
        exact present
      have kept : ∀ other ∈ rest, other ∈ (directory.erase name).keys := by
        intro other member
        obtain ⟨content, held⟩ := (Dict.mem_keys _ _).mp (later other member)
        refine (Dict.mem_keys _ _).mpr ⟨content, (Dict.mem_erase _ _ _ _).mpr ⟨?_, held⟩⟩
        exact fun same => once (same ▸ member)
      obtain ⟨left, removed, entries⟩ := ih (directory.erase name) distinct kept
      refine ⟨left, ?_, fun entry => ?_⟩
      · rw [removeFiles, List.foldlM_cons, if_pos found]
        exact removed
      · obtain ⟨other, content⟩ := entry
        rw [entries, Dict.mem_erase, List.mem_cons, not_or]
        exact ⟨fun given => ⟨given.1.2, given.1.1, given.2⟩,
          fun given => ⟨⟨given.2.1, given.1⟩, given.2.2⟩⟩

theorem BySteps.nodup (bySteps : BySteps listing sorted) : sorted.Nodup :=
  bySteps.increasing.imp fun before same => by
    rw [same] at before
    exact before.asymm before

theorem BySteps.deleteOldCheckpoints_eq (bySteps : BySteps directory.keys sorted)
    (lists : listing.Perm directory.keys) (maxCheckpointsToKeep : Nat)
    (positive : 0 < maxCheckpointsToKeep) :
    ∃ left, deleteOldCheckpoints maxCheckpointsToKeep listing directory = some left ∧
      ∀ entry, entry ∈ left ↔
        entry ∈ directory ∧ entry.1 ∉ sorted.take (sorted.length - maxCheckpointsToKeep) := by
  have listed := bySteps.of_perm lists
  obtain ⟨keyed, all, names, each⟩ := keyed_of_steps (listing.filter isCheckpointFile)
    fun name member => bySteps.steps name (listed.perm.mem_iff.mpr member)
  have same : sorted.Perm (keyed.map Prod.snd) := by
    rw [names]
    exact listed.perm
  have whole : sorted.length ≤ maxCheckpointsToKeep →
      ∀ entry, entry ∈ directory ↔
        entry ∈ directory ∧ entry.1 ∉ sorted.take (sorted.length - maxCheckpointsToKeep) := by
    intro few entry
    rw [Nat.sub_eq_zero_of_le few, List.take_zero]
    simp
  rw [deleteOldCheckpoints]
  by_cases empty : (listing.filter isCheckpointFile).isEmpty = true
  · rw [if_pos empty]
    refine ⟨directory, rfl, whole ?_⟩
    rw [listed.perm.length_eq, List.isEmpty_iff.mp empty]
    exact Nat.zero_le _
  · rw [if_neg empty, all]
    simp only [Option.bind_eq_bind, Option.bind_some, bySteps.sortedByKey_eq keyed same each,
      Option.pure_def]
    split
    · rw [sliceTo_neg _ _ positive]
      refine removeFiles_eq _ _ (bySteps.nodup.sublist (List.take_sublist _ _)) ?_
      intro name taken
      have present := bySteps.perm.mem_iff.mp (List.mem_of_mem_take taken)
      exact (List.mem_filter.mp present).1
    · rename_i few
      exact ⟨directory, rfl, whole (by omega)⟩

theorem mem_checkpointNames (directory : Dict FileName Content) (name : FileName) :
    name ∈ checkpointNames directory ↔
      isCheckpointFile name = true ∧ ∃ content, (name, content) ∈ directory := by
  rw [checkpointNames, List.mem_filter, Dict.mem_keys, and_comm]

theorem checkpointNames_nodup (directory : Dict FileName Content) :
    (checkpointNames directory).Nodup :=
  directory.nodup.filter _

theorem BySteps.left_names (bySteps : BySteps directory.keys sorted) (count : Nat)
    (left : Dict FileName Content) (entries : ∀ entry, entry ∈ left ↔
      entry ∈ directory ∧ entry.1 ∉ sorted.take count) :
    (checkpointNames left).Perm (sorted.drop count) := by
  refine (List.perm_ext_iff_of_nodup (checkpointNames_nodup left)
    (bySteps.nodup.sublist (List.drop_sublist _ _))).mpr fun name => ?_
  have split : sorted.take count ++ sorted.drop count = sorted := List.take_append_drop _ _
  have apart := bySteps.nodup
  rw [← split, List.nodup_append] at apart
  have original : name ∈ checkpointNames directory ↔ name ∈ sorted := bySteps.perm.mem_iff.symm
  rw [mem_checkpointNames] at original ⊢
  constructor
  · intro given
    obtain ⟨checkpoint, content, held⟩ := given
    obtain ⟨there, kept⟩ := (entries _).mp held
    have member := original.mp ⟨checkpoint, content, there⟩
    rw [← split, List.mem_append] at member
    exact member.resolve_left kept
  · intro dropped
    obtain ⟨checkpoint, content, held⟩ := original.mpr (List.mem_of_mem_drop dropped)
    refine ⟨checkpoint, content, (entries _).mpr ⟨held, fun taken => ?_⟩⟩
    exact apart.2.2 name taken name dropped rfl

theorem BySteps.left_bySteps (bySteps : BySteps directory.keys sorted) (count : Nat)
    (left : Dict FileName Content) (entries : ∀ entry, entry ∈ left ↔
      entry ∈ directory ∧ entry.1 ∉ sorted.take count) :
    BySteps left.keys (sorted.drop count) where
  perm := (bySteps.left_names count left entries).symm
  increasing := bySteps.increasing.sublist (List.drop_sublist _ _)
  steps := fun name member => bySteps.steps name (List.mem_of_mem_drop member)

end Deleting

section OneDeletion

variable {directory : Dict FileName Content}

theorem DistinctSteps.bySteps (steps : DistinctSteps directory) :
    ∃ sorted, BySteps directory.keys sorted := by
  have read : ∀ name ∈ checkpointNames directory, ∃ step, stepInName name = some step :=
    fun name member => stepInName_numbered name (steps.numbered name member)
  obtain ⟨keyed, _, names, each⟩ := keyed_of_steps _ read
  have perm := (sortedByKey_perm keyed).map Prod.snd
  rw [names] at perm
  refine ⟨(sortedByKey keyed).map Prod.snd, perm, ?_,
    fun name member => read name (perm.mem_iff.mp member)⟩
  have apart : (sortedByKey keyed).Pairwise fun left right => left.2 ≠ right.2 := by
    have distinct := perm.nodup_iff.mpr (checkpointNames_nodup directory)
    rw [List.Nodup, List.pairwise_map] at distinct
    exact distinct
  rw [List.pairwise_map]
  refine ((sortedByKey_ordered keyed).and apart).imp_of_mem ?_
  intro left right atLeft atRight both
  have readLeft := each left ((sortedByKey_perm keyed).mem_iff.mp atLeft)
  have readRight := each right ((sortedByKey_perm keyed).mem_iff.mp atRight)
  refine ⟨left.1, right.1, readLeft, readRight, lt_of_le_of_ne both.1 fun same => both.2 ?_⟩
  refine steps.distinct _ (perm.mem_iff.mp (List.mem_map_of_mem atLeft)) _
    (perm.mem_iff.mp (List.mem_map_of_mem atRight)) ?_
  rw [readLeft, readRight, same]

theorem BySteps.keepsNewest {sorted : List FileName} (bySteps : BySteps directory.keys sorted)
    (count : Nat) (left : Dict FileName Content) (entries : ∀ entry, entry ∈ left ↔
      entry ∈ directory ∧ entry.1 ∉ sorted.take (sorted.length - count)) :
    KeepsNewest count directory left where
  subset := fun entry held => ((entries entry).mp held).1
  others := by
    intro entry there other
    refine (entries entry).mpr ⟨there, fun taken => ?_⟩
    have present := List.mem_filter.mp (bySteps.perm.mem_iff.mp (List.mem_of_mem_take taken))
    rw [other] at present
    exact absurd present.2 Bool.false_ne_true
  number := by
    rw [(bySteps.left_names _ left entries).length_eq, List.length_drop, checkpointNames,
      ← bySteps.perm.length_eq]
    omega
  newest := by
    intro removed there gone kept held removedStep keptStep atRemoved atKept
    have dropped := (bySteps.left_names _ left entries).mem_iff.mp held
    have taken : removed ∈ sorted.take (sorted.length - count) := by
      by_contra kept
      obtain ⟨_, content, member⟩ := (mem_checkpointNames _ _).mp there
      exact gone ((Dict.mem_keys _ _).mpr ⟨content, (entries _).mpr ⟨member, kept⟩⟩)
    have increasing := bySteps.increasing
    rw [← List.take_append_drop (sorted.length - count) sorted, List.pairwise_append] at increasing
    obtain ⟨first, second, atFirst, atSecond, less⟩ := increasing.2.2 _ taken _ dropped
    rw [atRemoved, Option.some.injEq] at atFirst
    rw [atKept, Option.some.injEq] at atSecond
    rwa [atFirst, atSecond]

/-- Deleting old checkpoints keeps the newest and leaves the latest where it was. -/
theorem deleteOldCheckpoints_keepsNewest (count : Nat) (positive : 0 < count)
    (directory : Dict FileName Content) (listing : List FileName)
    (steps : DistinctSteps directory) (lists : listing.Perm directory.keys) :
    ∃ left, deleteOldCheckpoints count listing directory = some left ∧
      KeepsNewest count directory left ∧
      ∀ before after : List FileName, before.Perm directory.keys → after.Perm left.keys →
        ∃ latest, getLatestCheckpointPath before = some latest ∧
          getLatestCheckpointPath after = some latest := by
  obtain ⟨sorted, bySteps⟩ := steps.bySteps
  obtain ⟨left, deleted, entries⟩ := bySteps.deleteOldCheckpoints_eq lists count positive
  refine ⟨left, deleted, bySteps.keepsNewest count left entries, ?_⟩
  intro before after again later
  refine ⟨sorted.getLast?, (bySteps.of_perm again).getLatestCheckpointPath_eq, ?_⟩
  rw [((bySteps.left_bySteps _ left entries).of_perm later).getLatestCheckpointPath_eq,
    List.getLast?_drop]
  split
  · rename_i short
    have empty : sorted = [] := List.eq_nil_of_length_eq_zero (by omega)
    rw [empty]
    rfl
  · rfl

end OneDeletion

section Saves

def SaveCall.name (call : SaveCall Content) : FileName := checkpointName call.step

structure HoldsCalls (directory : Dict FileName Content) (calls : List (SaveCall Content)) :
    Prop where
  bySteps : BySteps directory.keys (calls.map SaveCall.name)
  contents : ∀ call ∈ calls, (call.name, call.content) ∈ directory

theorem HoldsCalls.nil (directory : Dict FileName Content)
    (fresh : checkpointNames directory = []) : HoldsCalls directory [] where
  bySteps := ⟨(fresh ▸ List.Perm.refl _ : [].Perm (checkpointNames directory)), List.Pairwise.nil,
    List.forall_mem_nil _⟩
  contents := List.forall_mem_nil _

theorem HoldsCalls.written {directory : Dict FileName Content} {calls : List (SaveCall Content)}
    (holds : HoldsCalls directory calls) (call : SaveCall Content)
    (later : ∀ earlier ∈ calls, earlier.step < call.step) :
    HoldsCalls (directory.set call.name call.content) (calls ++ [call]) := by
  have increasing : ((calls ++ [call]).map SaveCall.name).Pairwise Earlier := by
    rw [List.map_append, List.pairwise_append]
    refine ⟨holds.bySteps.increasing, List.pairwise_singleton _ _, ?_⟩
    intro left member right last
    obtain ⟨earlier, there, rfl⟩ := List.mem_map.mp member
    rw [List.mem_singleton.mp last]
    exact ⟨_, _, stepInName_checkpointName _, stepInName_checkpointName _,
      Int.ofNat_lt.mpr (later earlier there)⟩
  refine ⟨⟨?_, increasing, ?_⟩, ?_⟩
  · have distinct : ((calls ++ [call]).map SaveCall.name).Nodup := by
      refine increasing.imp fun before same => ?_
      rw [same] at before
      exact before.asymm before
    refine (List.perm_ext_iff_of_nodup distinct (checkpointNames_nodup _)).mpr fun name => ?_
    have original := holds.bySteps.perm.mem_iff (a := name)
    rw [List.map_append, List.mem_append, original, checkpointNames, List.mem_filter,
      List.mem_filter, Dict.mem_keys_set, List.map_singleton, List.mem_singleton]
    constructor
    · intro either
      rcases either with old | rfl
      · exact ⟨Or.inr old.1, old.2⟩
      · exact ⟨Or.inl rfl, isCheckpointFile_checkpointName _⟩
    · intro given
      exact given.1.elim Or.inr fun old => Or.inl ⟨old, given.2⟩
  · intro name member
    obtain ⟨other, _, rfl⟩ := List.mem_map.mp member
    exact ⟨_, stepInName_checkpointName _⟩
  · intro other member
    rw [Dict.mem_set]
    rcases List.mem_append.mp member with old | last
    · refine Or.inr ⟨fun same => ?_, holds.contents other old⟩
      exact absurd (later other old) (Nat.not_lt.mpr (checkpointName_injective same).ge)
    · rw [List.mem_singleton.mp last]
      exact Or.inl ⟨rfl, rfl⟩

theorem saveCheckpoint_holds {directory : Dict FileName Content} {calls : List (SaveCall Content)}
    (count : Nat) (positive : 0 < count) (holds : HoldsCalls directory calls)
    (call : SaveCall Content) (later : ∀ earlier ∈ calls, earlier.step < call.step) :
    ∃ left, SaveCall.saveCheckpoint count directory call = some left ∧
      HoldsCalls left ((calls ++ [call]).rtake count) := by
  have written := holds.written call later
  obtain ⟨left, saved, entries⟩ := written.bySteps.deleteOldCheckpoints_eq
    (call.listdir.perm _) count positive
  refine ⟨left, saved, ?_, ?_⟩
  · have kept := written.bySteps.left_bySteps _ left entries
    rw [← List.map_drop, List.length_map] at kept
    exact kept
  · intro other member
    have present := List.mem_of_mem_drop member
    refine (entries _).mpr ⟨written.contents other present, fun taken => ?_⟩
    have apart := written.bySteps.nodup
    rw [← List.take_append_drop ((calls ++ [call]).length - count) (calls ++ [call]),
      List.map_append, List.nodup_append] at apart
    rw [List.length_map, ← List.map_take] at taken
    exact apart.2.2 _ taken _ (List.mem_map_of_mem member) rfl

theorem rtake_append_singleton {α : Type} (count : Nat) (positive : 0 < count) (xs : List α)
    (x : α) : ((xs.rtake count) ++ [x]).rtake count = (xs ++ [x]).rtake count := by
  obtain ⟨before, rfl⟩ := Nat.exists_eq_succ_of_ne_zero positive.ne'
  rw [List.rtake_concat_succ, List.rtake_concat_succ]
  congr 1
  rw [List.rtake, List.rtake, List.rtake, List.length_drop, List.drop_drop]
  congr 1
  omega

/-- After any calls with increasing steps the directory holds the files of the last of them. -/
theorem saves_hold (count : Nat) (positive : 0 < count) (directory : Dict FileName Content)
    (fresh : checkpointNames directory = []) (calls : List (SaveCall Content))
    (increasing : (calls.map SaveCall.step).Pairwise (· < ·)) :
    ∃ left, calls.foldlM (SaveCall.saveCheckpoint count) directory = some left ∧
      HoldsCalls left (calls.rtake count) := by
  induction calls using List.reverseRecOn with
  | nil =>
      rw [List.rtake_nil]
      exact ⟨directory, rfl, HoldsCalls.nil directory fresh⟩
  | append_singleton calls call ih =>
      rw [List.map_append, List.pairwise_append] at increasing
      obtain ⟨left, saved, holds⟩ := ih increasing.1
      have later : ∀ earlier ∈ calls.rtake count, earlier.step < call.step := by
        intro earlier member
        exact increasing.2.2 _ (List.mem_map_of_mem (List.mem_of_mem_drop member)) _
          List.mem_cons_self
      obtain ⟨after, last, kept⟩ := saveCheckpoint_holds count positive holds call later
      rw [rtake_append_singleton count positive] at kept
      refine ⟨after, ?_, kept⟩
      rw [List.foldlM_append, saved]
      simp only [Option.bind_eq_bind, Option.bind_some, List.foldlM_cons, last, List.foldlM_nil]
      rfl

end Saves

section Retention

/-- Deleting old checkpoints leaves the newest files, and the latest one where it was. After
any calls with increasing steps the checkpoint files are those of the last calls, and a resuming
job finds the newest of them. -/
theorem latest_retained (maxCheckpointsToKeep : Int) (positive : 1 ≤ maxCheckpointsToKeep) :
    (∀ (directory : Dict FileName Content) (listing : List FileName),
      DistinctSteps directory → listing.Perm directory.keys →
        ∃ left, deleteOldCheckpoints maxCheckpointsToKeep listing directory = some left ∧
          KeepsNewest maxCheckpointsToKeep.toNat directory left ∧
          ∀ before after : List FileName, before.Perm directory.keys → after.Perm left.keys →
            ∃ latest, getLatestCheckpointPath before = some latest ∧
              getLatestCheckpointPath after = some latest) ∧
    ∀ (directory : Dict FileName Content) (calls : List (SaveCall Content)),
      checkpointNames directory = [] → (calls.map SaveCall.step).Pairwise (· < ·) →
        ∃ left, calls.foldlM (SaveCall.saveCheckpoint maxCheckpointsToKeep) directory = some left ∧
          (checkpointNames left).Perm
            ((calls.rtake maxCheckpointsToKeep.toNat).map SaveCall.name) ∧
          (∀ call ∈ calls.rtake maxCheckpointsToKeep.toNat, (call.name, call.content) ∈ left) ∧
          ∀ listing : List FileName, listing.Perm left.keys →
            getLatestCheckpointPath listing = some (calls.getLast?.map SaveCall.name) := by
  obtain ⟨count, rfl⟩ := Int.eq_ofNat_of_zero_le (Int.le_trans (by decide) positive)
  have atLeastOne : 0 < count := Int.ofNat_lt.mp positive
  rw [Int.toNat_natCast]
  refine ⟨deleteOldCheckpoints_keepsNewest count atLeastOne, ?_⟩
  intro directory calls fresh increasing
  obtain ⟨left, saved, holds⟩ := saves_hold count atLeastOne directory fresh calls increasing
  refine ⟨left, saved, holds.bySteps.perm.symm, holds.contents, ?_⟩
  intro listing lists
  rw [(holds.bySteps.of_perm lists).getLatestCheckpointPath_eq, List.getLast?_map, List.rtake,
    List.getLast?_drop]
  split
  · rename_i short
    rw [List.eq_nil_of_length_eq_zero (by omega : calls.length = 0)]
    rfl
  · rfl

def backwards : ListingOrder := ⟨List.reverse, List.reverse_perm⟩

def longerSteps : List (SaveCall Nat) :=
  [⟨9, 1, backwards⟩, ⟨10, 2, backwards⟩, ⟨100, 3, backwards⟩]

theorem two_retained : ∃ left,
    longerSteps.foldlM (SaveCall.saveCheckpoint 2) Dict.empty = some left ∧
    (checkpointNames left).Perm [checkpointName 10, checkpointName 100] ∧
    (∀ call ∈ longerSteps.rtake 2, (call.name, call.content) ∈ left) ∧
    (∀ listing : List FileName, listing.Perm left.keys →
      getLatestCheckpointPath listing = some (some (checkpointName 100))) ∧
    ∃ again, deleteOldCheckpoints 2 left.keys left = some again ∧ KeepsNewest 2 left again := by
  have both := @latest_retained Nat 2 (by decide)
  obtain ⟨left, saved, names, contents, latest⟩ :=
    both.2 Dict.empty longerSteps rfl (by decide)
  have steps : DistinctSteps left := by
    refine ⟨fun name member => ?_, fun first atFirst second atSecond same => ?_⟩
    · obtain ⟨call, _, rfl⟩ := List.mem_map.mp (names.mem_iff.mp member)
      exact isNumbered_checkpointName _
    · obtain ⟨call, _, rfl⟩ := List.mem_map.mp (names.mem_iff.mp atFirst)
      obtain ⟨other, _, rfl⟩ := List.mem_map.mp (names.mem_iff.mp atSecond)
      rw [SaveCall.name, SaveCall.name, stepInName_checkpointName, stepInName_checkpointName,
        Option.some.injEq, Int.natCast_inj] at same
      rw [SaveCall.name, SaveCall.name, same]
  obtain ⟨again, deleted, newest, _⟩ := both.1 left left.keys steps (List.Perm.refl _)
  exact ⟨left, saved, names, contents, latest, again, deleted, newest⟩

end Retention

end ScalarLM.Job
