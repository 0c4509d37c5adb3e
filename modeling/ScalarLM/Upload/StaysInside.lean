import ScalarLM.Lib.PathsInside
import ScalarLM.Upload.Containment

/-! What an archive must be like to be unpacked in the job directory only: where its members lead
in the trees in which they are extracted. -/

namespace ScalarLM.Upload

open FileTree ScalarLM.Computation

section Conditions

variable (existOk : Bool) (jobDirectory : Place)

/-- The directories that are missing on a path, which is given backwards, are made in the job
directory: each one in the tree with those above it. -/
def MakesDirsIn : List Name → Tree → Prop
  | [], _ => True
  | tail :: head, tree =>
      if tree.exists head.reverse then tree.MakesIn jobDirectory (tail :: head).reverse
      else
        MakesDirsIn head tree ∧
          AfterReturn (passing .fileExists (makedirsBack existOk head)) (fun _ made =>
            tail ≠ dot → made.MakesIn jobDirectory (tail :: head).reverse) tree

/-- The directories that are missing above a member are made in the job directory, and a property
holds of the tree with them. -/
def UpperdirsIn (path : List Name) (property : Tree → Prop) (tree : Tree) : Prop :=
  (tree.exists path.dropLast = false →
      MakesDirsIn existOk jobDirectory path.dropLast.reverse tree) ∧
    AfterReturn (upperdirs existOk path) (fun _ => property) tree

/-- What is made for a member is made in the job directory, and what is written to has no name
outside. For a link that cannot be made this is asked of what is extracted in its place. -/
def MemberType.StaysIn (path : List Name) : MemberType → Bool → Tree → Prop
  | .missing, _, _ => True
  | .file _, _, tree =>
      UpperdirsIn existOk jobDirectory path (fun upper => upper.WritesIn jobDirectory path) tree
  | .directory, setAttrs, tree =>
      UpperdirsIn existOk jobDirectory path (fun upper => upper.MakesIn jobDirectory path ∧
        (setAttrs = true → upper.isdir path = true → upper.TouchesIn jobDirectory path)) tree
  | .special, _, tree =>
      UpperdirsIn existOk jobDirectory path (fun upper => upper.MakesIn jobDirectory path) tree
  | .symlink linkname found, setAttrs, tree =>
      UpperdirsIn existOk jobDirectory path (fun upper =>
        (upper.RemovesIn jobDirectory path ∧
          (upper.after (.unlink path)).MakesIn jobDirectory path) ∧
        AfterThrow (makeSymlink linkname path) (fun cause left =>
          cause.isOSError = true → found.StaysIn path true left) upper ∧
        AfterReturn (orFound (makeSymlink linkname path)
            (extractMember existOk jobDirectory path found true)) (fun _ made =>
          setAttrs = true → made.TouchesLinkIn jobDirectory path) upper) tree
  | .hardlink linkname found, setAttrs, tree =>
      let link := makeHardlink jobDirectory linkname path
        (extractMember existOk jobDirectory path found true)
      UpperdirsIn existOk jobDirectory path (fun upper =>
        (if upper.exists (targetPath jobDirectory linkname) then
            upper.LinksIn jobDirectory (targetPath jobDirectory linkname) path
          else found.StaysIn path true upper) ∧
        AfterThrow link (fun cause left =>
          cause.isOSError = true → found.StaysIn path true left) upper ∧
        AfterReturn (orFound link (extractMember existOk jobDirectory path found true))
          (fun _ made => setAttrs = true → made.TouchesIn jobDirectory path) upper) tree

def Member.StaysIn (member : Member) (tree : Tree) : Prop :=
  let path := targetPath jobDirectory member.name
  path ≠ [] → member.type.StaysIn existOk jobDirectory path (!member.type.isdir) tree

/-- Every member that is reached stays in the job directory, in the tree that the members before
it have left, and so do the directories of the archive when their attributes are set. -/
def Archive.StaysIn (archive : Archive) (tree : Tree) : Prop :=
  EachReached (extractOne existOk jobDirectory) (Member.StaysIn existOk jobDirectory)
      archive.members tree ∧
    AfterReturn (forEach (extractOne existOk jobDirectory) archive.members) (fun _ extracted =>
      archive.broken = false → ∀ member ∈ archive.members, member.type.isdir = true →
        extracted.TouchesIn jobDirectory (targetPath jobDirectory member.name)) tree

def EntryStaysIn (entry : List Name × Option (List UInt8)) (tree : Tree) : Prop :=
  let path := jobDirectory ++ mlName :: entry.1
  if entry.2.isNone then MakesDirsIn false jobDirectory path.reverse tree
  else tree.WritesIn jobDirectory path

def MlStaysIn (ml : List (List Name × Option (List UInt8))) (tree : Tree) : Prop :=
  let path := jobDirectory ++ [mlName]
  tree.exists path = false → MakesDirsIn false jobDirectory path.reverse tree ∧
    AfterReturn (makedirs false path) (fun _ made =>
      EachReached (copyEntry jobDirectory) (EntryStaysIn jobDirectory) ml made ∧
        AfterReturn (forEach (copyEntry jobDirectory) ml) (fun _ copied =>
          copied.TouchesIn jobDirectory path) made) tree

/-- The job directory, the members of the archive and the `ml` directory lead into the job
directory, each in the tree in which it is made. -/
def StaysIn (archive : Archive) (ml : List (List Name × Option (List UInt8))) (tree : Tree) :
    Prop :=
  MakesDirsIn true jobDirectory jobDirectory.reverse tree ∧
    AfterReturn (makedirs true jobDirectory) (fun _ made =>
      archive.StaysIn existOk jobDirectory made ∧
        AfterReturn (extractall existOk jobDirectory archive) (fun _ extracted =>
          MlStaysIn jobDirectory ml extracted) made) tree

end Conditions

section Calls

variable {existOk : Bool} {jobDirectory : Place} {path : List Name} {tree : Tree}

/-- All calls of an extraction lead into the directory. -/
abbrev LeadsInside {ρ : Type} (jobDirectory : Place) (extraction : Extraction ρ) (tree : Tree) :
    Prop :=
  OnlyIssues (fun made : Tree × Call => made.2.Inside jobDirectory made.1) extraction tree

theorem leadsInside_andThen {ρ υ : Type} {first : Extraction ρ} {next : ρ → Extraction υ} :
    LeadsInside jobDirectory (first.andThen next) tree ↔ LeadsInside jobDirectory first tree ∧
      AfterReturn first (fun value after => LeadsInside jobDirectory (next value) after) tree :=
  onlyIssues_andThen

@[simp] theorem leadsInside_perform {call : Call} :
    LeadsInside jobDirectory (perform call) tree ↔ call.Inside jobDirectory tree :=
  List.forall_mem_singleton

theorem perform_ok {call : Call} {effect : Effect} (done : tree.effect call = .ok effect) :
    perform call tree = ⟨[(tree, call)], tree.apply effect, .ok ()⟩ := by
  rw [perform, Tree.after, done]

theorem perform_error {call : Call} {errno : Errno} (failed : tree.effect call = .error errno) :
    perform call tree = ⟨[(tree, call)], tree,
      .error (if errno = .exists then .fileExists else .osError)⟩ := by
  rw [perform, Tree.after, failed]
  cases errno <;> rfl

theorem afterReturn_perform {call : Call} {property : Unit → Tree → Prop} :
    AfterReturn (perform call) property tree ↔
      ∀ effect, tree.effect call = .ok effect → property () (tree.apply effect) := by
  cases done : tree.effect call with
  | error errno => simp [AfterReturn, perform_error done]
  | ok effect => simp [AfterReturn, perform_ok done, Unique.forall_iff]

@[simp] theorem leadsInside_setAttributes {call : Call} :
    LeadsInside jobDirectory (setAttributes call) tree ↔ call.Inside jobDirectory tree := by
  simp [setAttributes]

@[simp] theorem leadsInside_passing {stop : Stop} {extraction : Extraction Unit} :
    LeadsInside jobDirectory (passing stop extraction) tree ↔
      LeadsInside jobDirectory extraction tree := by
  simp [passing]

@[simp] theorem leadsInside_mkdirOr :
    LeadsInside jobDirectory (mkdirOr existOk path) tree ↔ tree.MakesIn jobDirectory path := by
  simp [mkdirOr]

theorem leadsInside_makedirsBack {back : List Name} :
    LeadsInside jobDirectory (makedirsBack existOk back) tree ↔
      MakesDirsIn existOk jobDirectory back tree := by
  induction back generalizing tree with
  | nil =>
      refine leadsInside_mkdirOr.trans (iff_of_true (fun place found => ?_) trivial)
      exact absurd found (Option.some_ne_none _).symm
  | cons tail head ih =>
      simp [makedirsBack, MakesDirsIn, ih, AfterReturn]

theorem leadsInside_makedirs :
    LeadsInside jobDirectory (makedirs existOk path) tree ↔
      MakesDirsIn existOk jobDirectory path.reverse tree :=
  leadsInside_makedirsBack

theorem leadsInside_upperdirs {next : Extraction Unit} {property : Tree → Prop}
    (later : ∀ upper, LeadsInside jobDirectory next upper ↔ property upper) :
    LeadsInside jobDirectory ((upperdirs existOk path).andThen fun _ => next) tree ↔
      UpperdirsIn existOk jobDirectory path property tree := by
  refine leadsInside_andThen.trans (and_congr ?_ (forall₂_congr fun _ _ => later _))
  simp [upperdirs, leadsInside_makedirs]

theorem leadsInside_attributes {setAttrs : Bool} {call : Call} :
    LeadsInside jobDirectory (if setAttrs then setAttributes call else returns ()) tree ↔
      (setAttrs = true → call.Inside jobDirectory tree) := by
  simp

theorem leadsInside_attributes_of {setAttrs : Bool}
    (touches : tree.TouchesIn jobDirectory path) :
    LeadsInside jobDirectory
      (if setAttrs then setAttributes (.setAttributes path) else returns ()) tree :=
  leadsInside_attributes.mpr fun _ => setAttributes_inside_iff.mpr touches

theorem leadsInside_makes {call : Call} {next : Extraction Unit}
    (touches : call.Inside jobDirectory tree → ∀ effect, tree.effect call = .ok effect →
      (tree.apply effect).TouchesIn jobDirectory path)
    (later : ∀ made, made.TouchesIn jobDirectory path → LeadsInside jobDirectory next made) :
    LeadsInside jobDirectory ((perform call).andThen fun _ => next) tree ↔
      call.Inside jobDirectory tree := by
  rw [leadsInside_andThen, leadsInside_perform, and_iff_left_iff_imp]
  intro inside
  exact afterReturn_perform.mpr fun effect done => later _ (touches inside effect done)

theorem leadsInside_makedir {setAttrs : Bool} :
    LeadsInside jobDirectory ((makedir path).andThen fun _ =>
        if setAttrs then setAttributes (.setAttributes path) else returns ()) tree ↔
      tree.MakesIn jobDirectory path ∧ (setAttrs = true → tree.isdir path = true →
        tree.TouchesIn jobDirectory path) := by
  have makes : LeadsInside jobDirectory (makedir path) tree ↔
      tree.MakesIn jobDirectory path := by
    simp [makedir]
  rw [leadsInside_andThen, makes]
  refine and_congr_right fun inside => ?_
  simp only [leadsInside_attributes, setAttributes_inside_iff]
  cases done : tree.effect (.mkdir path) with
  | ok effect =>
      have touches := touchesIn_makes inside (fun _ => Kind.noConfusion) done
      refine iff_of_true (fun value returned _ => ?_) fun _ directory => ?_
      · rw [makedir, catches_ok (congrArg Ran.result (perform_ok done)), perform_ok done]
        exact touches
      · rw [mkdir_isdir directory] at done
        cases done
  | error errno =>
      have failed := perform_error done
      rw [AfterReturn, makedir, catches_error (congrArg Ran.result failed), failed,
        andThen_ok (result_reads _)]
      cases directory : tree.isdir path with
      | false => simp [throws]
      | true =>
          rw [mkdir_isdir directory] at done
          rw [← Except.error.inj done]
          simp [returns]

theorem leadsInside_makeSymlink {linkname : List Char} :
    LeadsInside jobDirectory (makeSymlink linkname path) tree ↔
      tree.RemovesIn jobDirectory path ∧
        (tree.after (.unlink path)).MakesIn jobDirectory path := by
  rw [makeSymlink, leadsInside_andThen, and_iff_right (onlyIssues_reads _), AfterReturn]
  simp only [result_reads, Except.ok.injEq, forall_eq', state_reads]
  cases there : tree.lexists path with
  | false =>
      have nothing : tree.RemovesIn jobDirectory path := fun place found entry present => by
        rw [slot_missing there found] at present
        exact absurd present (Option.some_ne_none _).symm
      rw [Tree.after, unlink_missing there, if_neg Bool.false_ne_true, returns_andThen,
        leadsInside_perform, symlink_inside_iff, and_iff_right nothing]
  | true =>
      rw [if_pos rfl, leadsInside_andThen, leadsInside_perform, unlink_inside_iff]
      refine and_congr_right fun _ => ?_
      simp only [leadsInside_perform, symlink_inside_iff]
      rw [afterReturn_perform, Tree.after]
      cases done : tree.effect (.unlink path) with
      | error errno => simpa using makesIn_there there
      | ok effect => simp

theorem leadsInside_makeHardlink {linkname : List Char} {found : Extraction Unit} :
    LeadsInside jobDirectory (makeHardlink jobDirectory linkname path found) tree ↔
      if tree.exists (targetPath jobDirectory linkname) then
        tree.LinksIn jobDirectory (targetPath jobDirectory linkname) path
      else LeadsInside jobDirectory found tree := by
  rw [makeHardlink, leadsInside_andThen, and_iff_right (onlyIssues_reads _), AfterReturn]
  simp only [result_reads, Except.ok.injEq, forall_eq', state_reads, onlyIssues_ite,
    leadsInside_perform, link_inside_iff]

theorem leadsInside_orFound {link found : Extraction Unit} :
    LeadsInside jobDirectory (orFound link found) tree ↔ LeadsInside jobDirectory link tree ∧
      AfterThrow link (fun cause left => cause.isOSError = true →
        LeadsInside jobDirectory found left) tree := by
  refine onlyIssues_catches.trans (and_congr_right fun _ => forall₂_congr fun cause _ => ?_)
  cases system : cause.isOSError <;> simp [system]

theorem leadsInside_extractMember {type : MemberType} {setAttrs : Bool} :
    LeadsInside jobDirectory (extractMember existOk jobDirectory path type setAttrs) tree ↔
      type.StaysIn existOk jobDirectory path setAttrs tree := by
  induction type generalizing setAttrs tree with
  | missing => exact iff_of_true (onlyIssues_throws _) trivial
  | file contents =>
      refine leadsInside_upperdirs fun upper => ?_
      refine (leadsInside_makes (fun inside effect => ?_) fun made =>
        leadsInside_attributes_of).trans write_inside_iff
      exact touchesIn_write (write_inside_iff.mp inside)
  | directory => exact leadsInside_upperdirs fun upper => leadsInside_makedir
  | special =>
      refine leadsInside_upperdirs fun upper => ?_
      refine (leadsInside_makes (fun inside effect => ?_) fun made =>
        leadsInside_attributes_of).trans mknod_inside_iff
      exact touchesIn_makes (mknod_inside_iff.mp inside) fun _ => Kind.noConfusion
  | symlink linkname found ih =>
      refine leadsInside_upperdirs fun upper => ?_
      rw [leadsInside_andThen, leadsInside_orFound, leadsInside_makeSymlink, and_assoc]
      simp only [ih, leadsInside_attributes, setLinkAttributes_inside_iff]
  | hardlink linkname found ih =>
      refine leadsInside_upperdirs fun upper => ?_
      rw [leadsInside_andThen, leadsInside_orFound, leadsInside_makeHardlink, and_assoc]
      simp only [ih, leadsInside_attributes, setAttributes_inside_iff]

theorem leadsInside_extractOne {member : Member} :
    LeadsInside jobDirectory (extractOne existOk jobDirectory member) tree ↔
      member.StaysIn existOk jobDirectory tree := by
  rw [extractOne, Member.StaysIn]
  split
  · rename_i empty
    exact iff_of_true (onlyIssues_throws _) fun nonempty => absurd empty nonempty
  · rename_i nonempty
    rw [nonfatal, leadsInside_passing, leadsInside_extractMember, forall_prop_of_true nonempty]

theorem nonfatal_setAttributes (tree : Tree) (path : List Name) :
    (nonfatal (setAttributes (.setAttributes path)) tree).result = .ok () ∧
      (nonfatal (setAttributes (.setAttributes path)) tree).state.entries = tree.entries := by
  cases done : tree.effect (.setAttributes path) with
  | error errno =>
      have failed : setAttributes (.setAttributes path) tree =
          ⟨[(tree, .setAttributes path)], tree, .error .extractError⟩ := by
        rw [setAttributes, catches_error (congrArg Ran.result (perform_error done)),
          perform_error done]
        rfl
      rw [nonfatal, passing, catches_error (congrArg Ran.result failed), failed]
      exact ⟨rfl, rfl⟩
  | ok effect =>
      have set : setAttributes (.setAttributes path) tree =
          ⟨[(tree, .setAttributes path)], tree.apply effect, .ok ()⟩ := by
        rw [setAttributes, catches_ok (congrArg Ran.result (perform_ok done)), perform_ok done]
      rw [nonfatal, passing, catches_ok (congrArg Ran.result set), set]
      refine ⟨rfl, ?_⟩
      rw [Tree.effect] at done
      split at done
      · cases done
      · rw [← Except.ok.inj done]
        rfl

theorem leadsInside_nonfatal :
    LeadsInside jobDirectory (nonfatal (setAttributes (.setAttributes path))) tree ↔
      tree.TouchesIn jobDirectory path := by
  rw [nonfatal, leadsInside_passing, leadsInside_setAttributes, setAttributes_inside_iff]

theorem leadsInside_sortedDirectories {members : List Member} :
    LeadsInside jobDirectory (forEach (fun member => nonfatal (setAttributes (.setAttributes
        (targetPath jobDirectory member.name)))) (sortedDirectories members)) tree ↔
      ∀ member ∈ members, member.type.isdir = true →
        tree.TouchesIn jobDirectory (targetPath jobDirectory member.name) := by
  refine onlyIssues_forEach.trans ((eachReached_iff_forall (fun member tree => ?_)
    fun member other tree => ?_).trans ?_)
  · exact (nonfatal_setAttributes tree _).1
  · exact leadsInside_nonfatal.trans
      ((touchesIn_congr (nonfatal_setAttributes tree _).2).trans leadsInside_nonfatal.symm)
  · simp only [leadsInside_nonfatal, sortedDirectories, List.mem_insertionSort, List.mem_filter,
      and_imp]

theorem leadsInside_extractall {archive : Archive} :
    LeadsInside jobDirectory (extractall existOk jobDirectory archive) tree ↔
      archive.StaysIn existOk jobDirectory tree := by
  rw [extractall, leadsInside_andThen]
  refine and_congr ?_ (AfterReturn.congr fun _ _ => ?_)
  · exact onlyIssues_forEach.trans (EachReached.congr fun _ _ _ => leadsInside_extractOne)
  · rw [← leadsInside_sortedDirectories]
    cases archive.broken <;> simp

theorem leadsInside_copyEntry {entry : List Name × Option (List UInt8)} :
    LeadsInside jobDirectory (copyEntry jobDirectory entry) tree ↔
      EntryStaysIn jobDirectory entry tree := by
  obtain ⟨name, contents⟩ := entry
  cases contents with
  | none => simp [copyEntry, EntryStaysIn, leadsInside_makedirs]
  | some contents =>
      have writes : LeadsInside jobDirectory
          ((perform (.write (jobDirectory ++ mlName :: name) contents)).andThen fun _ =>
            perform (.setAttributes (jobDirectory ++ mlName :: name))) tree ↔
          tree.WritesIn jobDirectory (jobDirectory ++ mlName :: name) := by
        refine (leadsInside_makes (fun inside effect => ?_) fun made touches =>
          leadsInside_perform.mpr (setAttributes_inside_iff.mpr touches)).trans write_inside_iff
        exact touchesIn_write (write_inside_iff.mp inside)
      refine onlyIssues_catches.trans ((and_iff_left fun _ _ => onlyIssues_returns _).trans ?_)
      exact writes

theorem leadsInside_copyMl {ml : List (List Name × Option (List UInt8))} :
    LeadsInside jobDirectory (copyMl jobDirectory ml) tree ↔
      MlStaysIn jobDirectory ml tree := by
  rw [copyMl, leadsInside_andThen, and_iff_right (onlyIssues_reads _), AfterReturn]
  simp only [result_reads, Except.ok.injEq, forall_eq', state_reads, MlStaysIn]
  cases tree.exists (jobDirectory ++ [mlName]) with
  | true => simp
  | false =>
      rw [if_neg Bool.false_ne_true, leadsInside_andThen, leadsInside_makedirs,
        forall_prop_of_true rfl]
      refine and_congr_right fun _ => AfterReturn.congr fun _ _ => ?_
      rw [leadsInside_andThen]
      refine and_congr ?_ (AfterReturn.congr fun _ _ => ?_)
      · exact onlyIssues_forEach.trans (EachReached.congr fun _ _ _ => leadsInside_copyEntry)
      · exact leadsInside_perform.trans setAttributes_inside_iff

theorem leadsInside_unpack {archive : Archive} {ml : List (List Name × Option (List UInt8))} :
    LeadsInside jobDirectory (unpack existOk jobDirectory archive ml) tree ↔
      StaysIn existOk jobDirectory archive ml tree := by
  rw [unpack, leadsInside_andThen, leadsInside_makedirs]
  refine and_congr_right fun _ => AfterReturn.congr fun _ _ => ?_
  rw [leadsInside_andThen, leadsInside_extractall]
  exact and_congr_right fun _ => AfterReturn.congr fun _ _ => leadsInside_copyMl

end Calls

end ScalarLM.Upload
