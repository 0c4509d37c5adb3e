import ScalarLM.Upload.Extraction

/-! When an archive is unpacked in the job directory only. -/

namespace ScalarLM.Upload

open FileTree ScalarLM.Computation

section Respecting

variable {relation : Tree → List (Tree × Call) → Tree → Prop} (chains : Chains relation)
  {existOk : Bool} {jobDirectory : Place} {path : List Name}

structure Serves (relation : Tree → List (Tree × Call) → Tree → Prop) (path : List Name) :
    Prop where
  above : ∀ front, front <+: path → Respects relation (perform (.mkdir front))
  mknod : Respects relation (perform (.mknod path))
  write : ∀ contents, Respects relation (perform (.write path contents))
  attributes : Respects relation (perform (.setAttributes path))

structure ServesLinks (relation : Tree → List (Tree × Call) → Tree → Prop)
    (path : List Name) : Prop where
  unlink : Respects relation (perform (.unlink path))
  symlink : ∀ target, Respects relation (perform (.symlink target path))
  link : ∀ source, Respects relation (perform (.link source path))
  attributes : Respects relation (perform (.setLinkAttributes path))

include chains

theorem mkdirOr_respects (makes : Respects relation (perform (.mkdir path))) :
    Respects relation (mkdirOr existOk path) := by
  refine chains.catches makes fun cause => chains.andThen (chains.reads _) fun isdir => ?_
  split
  · exact chains.returns ()
  · exact chains.throws cause

theorem passing_respects {stop : Stop} {extraction : Extraction Unit}
    (extracts : Respects relation extraction) : Respects relation (passing stop extraction) := by
  refine chains.catches extracts fun cause => ?_
  split
  · exact chains.returns ()
  · exact chains.throws cause

theorem makedirsBack_respects (back : List Name)
    (makes : ∀ front, front <+: back.reverse → Respects relation (perform (.mkdir front))) :
    Respects relation (makedirsBack existOk back) := by
  induction back with
  | nil => exact mkdirOr_respects chains (makes [] List.nil_prefix)
  | cons tail head ih =>
      have whole : Respects relation (mkdirOr existOk (tail :: head).reverse) :=
        mkdirOr_respects chains (makes _ (List.prefix_refl _))
      refine chains.andThen (chains.reads _) fun there => ?_
      split
      · exact whole
      · refine chains.andThen (passing_respects chains (ih fun front first => ?_)) fun _ => ?_
        · refine makes front (first.trans ?_)
          rw [List.reverse_cons]
          exact List.prefix_append _ _
        · split
          · exact chains.returns ()
          · exact whole

theorem makedirs_respects
    (makes : ∀ front, front <+: path → Respects relation (perform (.mkdir front))) :
    Respects relation (makedirs existOk path) := by
  refine makedirsBack_respects chains path.reverse ?_
  rw [List.reverse_reverse]
  exact makes

theorem upperdirs_respects (serves : Serves relation path) :
    Respects relation (upperdirs existOk path) := by
  refine chains.andThen (chains.reads _) fun there => ?_
  split
  · exact chains.returns ()
  · exact makedirs_respects chains fun front first =>
      serves.above front (first.trans (List.dropLast_prefix path))

theorem setAttributes_respects {call : Call} (sets : Respects relation (perform call)) :
    Respects relation (setAttributes call) :=
  chains.catches sets fun _ => chains.throws _

theorem attributes_respects {call : Call} (sets : Respects relation (perform call))
    (setAttrs : Bool) :
    Respects relation (if setAttrs then setAttributes call else returns ()) := by
  split
  · exact setAttributes_respects chains sets
  · exact chains.returns ()

theorem makedir_respects (serves : Serves relation path) : Respects relation (makedir path) := by
  refine chains.catches (serves.above path (List.prefix_refl path)) fun cause => ?_
  refine chains.andThen (chains.reads _) fun isdir => ?_
  split
  · exact chains.returns ()
  · exact chains.throws cause

theorem orFound_respects {link found : Extraction Unit} (links : Respects relation link)
    (finds : Respects relation found) : Respects relation (orFound link found) := by
  refine chains.catches links fun cause => ?_
  split
  · exact chains.catches finds fun again => chains.throws _
  · exact chains.throws cause

theorem makeSymlink_respects (serves : ServesLinks relation path) (linkname : List Char) :
    Respects relation (makeSymlink linkname path) := by
  refine chains.andThen (chains.reads _) fun there => chains.andThen ?_ fun _ =>
    serves.symlink linkname
  split
  · exact serves.unlink
  · exact chains.returns ()

theorem makeHardlink_respects (serves : ServesLinks relation path) (linkname : List Char)
    {found : Extraction Unit} (finds : Respects relation found) :
    Respects relation (makeHardlink jobDirectory linkname path found) := by
  refine chains.andThen (chains.reads _) fun there => ?_
  split
  · exact serves.link _
  · exact finds

def MemberType.Plain : MemberType → Prop
  | .file _ => True
  | .directory => True
  | .special => True
  | _ => False

theorem extractMember_respects (serves : Serves relation path) {type : MemberType}
    (links : type.Plain ∨ ServesLinks relation path) (setAttrs : Bool) :
    Respects relation (extractMember existOk jobDirectory path type setAttrs) := by
  have upper : Respects relation (upperdirs existOk path) := upperdirs_respects chains serves
  induction type generalizing setAttrs with
  | missing => exact chains.throws _
  | file contents =>
      exact chains.andThen upper fun _ => chains.andThen (serves.write contents) fun _ =>
        attributes_respects chains serves.attributes setAttrs
  | directory =>
      exact chains.andThen upper fun _ => chains.andThen (makedir_respects chains serves) fun _ =>
        attributes_respects chains serves.attributes setAttrs
  | special =>
      exact chains.andThen upper fun _ => chains.andThen serves.mknod fun _ =>
        attributes_respects chains serves.attributes setAttrs
  | symlink linkname found ih =>
      have linked := links.resolve_left id
      have finds := ih (Or.inr linked) true
      exact chains.andThen upper fun _ => chains.andThen
        (orFound_respects chains (makeSymlink_respects chains linked linkname) finds) fun _ =>
          attributes_respects chains linked.attributes setAttrs
  | hardlink linkname found ih =>
      have linked := links.resolve_left id
      have finds := ih (Or.inr linked) true
      exact chains.andThen upper fun _ => chains.andThen
        (orFound_respects chains (makeHardlink_respects chains linked linkname finds) finds)
          fun _ => attributes_respects chains serves.attributes setAttrs

def ServesMembers (relation : Tree → List (Tree × Call) → Tree → Prop) (jobDirectory : Place)
    (members : List Member) : Prop :=
  ∀ member ∈ members, Serves relation (targetPath jobDirectory member.name) ∧
    (member.type.Plain ∨ ServesLinks relation (targetPath jobDirectory member.name))

omit chains in
theorem mem_sortedDirectories {members : List Member} {member : Member}
    (listed : member ∈ sortedDirectories members) : member ∈ members :=
  List.mem_of_mem_filter ((List.mem_insertionSort _).mp listed)

theorem extractall_respects {archive : Archive}
    (serves : ServesMembers relation jobDirectory archive.members) :
    Respects relation (extractall existOk jobDirectory archive) := by
  refine chains.andThen (chains.forEach fun member listed => ?_) fun _ => ?_
  · rw [extractOne]
    split
    · exact chains.throws _
    · exact passing_respects chains
        (extractMember_respects chains (serves member listed).1 (serves member listed).2 _)
  · split
    · exact chains.throws _
    · refine chains.forEach fun member listed => passing_respects chains ?_
      exact setAttributes_respects chains
        (serves member (mem_sortedDirectories listed)).1.attributes

theorem copyMl_respects {ml : List (List Name × Option (List UInt8))}
    (itself : Serves relation (jobDirectory ++ [mlName]))
    (below : ∀ entry ∈ ml, Serves relation (jobDirectory ++ mlName :: entry.1)) :
    Respects relation (copyMl jobDirectory ml) := by
  refine chains.andThen (chains.reads _) fun there => ?_
  split
  · exact chains.returns ()
  · refine chains.andThen (makedirs_respects chains itself.above) fun _ => ?_
    refine chains.andThen (chains.forEach fun entry listed => ?_) fun _ => itself.attributes
    refine chains.catches ?_ fun _ => chains.returns ()
    split
    · exact makedirs_respects chains (below entry listed).above
    · exact chains.andThen ((below entry listed).write _) fun _ => (below entry listed).attributes

theorem unpack_respects {archive : Archive} {ml : List (List Name × Option (List UInt8))}
    (made : ∀ front, front <+: jobDirectory → Respects relation (perform (.mkdir front)))
    (serves : ServesMembers relation jobDirectory archive.members)
    (itself : Serves relation (jobDirectory ++ [mlName]))
    (below : ∀ entry ∈ ml, Serves relation (jobDirectory ++ mlName :: entry.1)) :
    Respects relation (unpack existOk jobDirectory archive ml) :=
  chains.andThen (makedirs_respects chains made) fun _ =>
    chains.andThen (extractall_respects chains serves) fun _ =>
      copyMl_respects chains itself below

/-- Whatever holds of each single call holds of what the whole upload does. -/
theorem unpack_respects_all (calls : ∀ call, Respects relation (perform call)) (existOk : Bool)
    (jobDirectory : Place) (archive : Archive) (ml : List (List Name × Option (List UInt8))) :
    Respects relation (unpack existOk jobDirectory archive ml) := by
  have all : ∀ path, Serves relation path := fun path =>
    ⟨fun front _ => calls _, calls _, fun contents => calls _, calls _⟩
  have links : ∀ path, ServesLinks relation path := fun path =>
    ⟨calls _, fun target => calls _, fun source => calls _, calls _⟩
  exact unpack_respects chains (fun front _ => calls _)
    (fun member _ => ⟨all _, Or.inr (links _)⟩) (all _) fun entry _ => all _

end Respecting

section Containment

variable {existOk : Bool} {jobDirectory : Place} {archive : Archive}
  {ml : List (List Name × Option (List UInt8))} {tree : Tree}

/-- No system call creates or modifies anything outside of the job directory, and all in all
everything outside is as before. -/
def Contained (jobDirectory : Place) (tree : Tree)
    (ran : Ran Tree (Tree × Call) Stop Unit) : Prop :=
  (∀ made ∈ ran.issued, SameOutside jobDirectory made.1 (made.1.after made.2)) ∧
    SameOutside jobDirectory tree ran.state

/-- All that the upload does is in the list of its calls. -/
theorem unpack_sameOutside (all : ∀ made ∈ (unpack existOk jobDirectory archive ml tree).issued,
    SameOutside jobDirectory made.1 (made.1.after made.2)) :
    SameOutside jobDirectory tree (unpack existOk jobDirectory archive ml tree).state := by
  have chains := chains_change
    (fun made : Tree × Call => SameOutside jobDirectory made.1 (made.1.after made.2))
    (SameOutside.refl jobDirectory) fun start middle last => SameOutside.trans
  refine unpack_respects_all chains (fun call state same => ?_) existOk jobDirectory archive ml tree
    all
  exact same (state, call) (List.mem_singleton_self _)

theorem contained_iff_inside :
    Contained jobDirectory tree (unpack existOk jobDirectory archive ml tree) ↔
      ∀ made ∈ (unpack existOk jobDirectory archive ml tree).issued,
        made.2.Inside jobDirectory made.1 := by
  constructor
  · intro contained made member
    exact (sameOutside_after_iff jobDirectory made.1 made.2).mp (contained.1 made member)
  · intro inside
    have all : ∀ made ∈ (unpack existOk jobDirectory archive ml tree).issued,
        SameOutside jobDirectory made.1 (made.1.after made.2) := fun made member =>
      (sameOutside_after_iff jobDirectory made.1 made.2).mpr (inside made member)
    exact ⟨all, unpack_sameOutside all⟩

end Containment

section Plain

variable {jobDirectory : Place} {archive : Archive} {ml : List (List Name × Option (List UInt8))}
  {tree : Tree}

abbrev StaysClean (jobDirectory : Place) (start : Tree) (issued : List (Tree × Call))
    (last : Tree) : Prop :=
  Clean jobDirectory start →
    (∀ made ∈ issued, made.2.Inside jobDirectory made.1) ∧ Clean jobDirectory last

theorem perform_staysClean {call : Call} (plain : call.Plain jobDirectory) :
    Respects (StaysClean jobDirectory) (perform call) := by
  intro tree clean
  obtain ⟨inside, after⟩ := clean.after plain
  refine ⟨fun made member => ?_, after⟩
  rw [List.mem_singleton.mp member]
  exact inside

theorem serves_down {path : List Name} (down : Down jobDirectory path) :
    Serves (StaysClean jobDirectory) path := by
  refine ⟨fun front first => perform_staysClean ?_, perform_staysClean down,
    fun contents => perform_staysClean down, perform_staysClean down⟩
  obtain ⟨rest, rfl, below⟩ := down
  rcases List.prefix_or_prefix_of_prefix first (List.prefix_append jobDirectory rest) with
    before | ⟨more, rfl⟩
  · exact Or.inl before
  · have part := (List.prefix_append_right_inj jobDirectory).mp first
    exact Or.inr ⟨more, rfl, fun member => below (part.subset member)⟩

/-- Relative names that never go up, and no links. -/
def Archive.Plain (archive : Archive) : Prop :=
  ∀ member ∈ archive.members, absolute member.name = false ∧ dotdot ∉ parts member.name ∧
    member.type.Plain

/-- A plain archive is unpacked in the job directory only, when there are no links in it yet. -/
theorem plain_contained (existOk : Bool) (clean : Clean jobDirectory tree)
    (plain : archive.Plain) (source : ∀ entry ∈ ml, dotdot ∉ entry.1) :
    Contained jobDirectory tree (unpack existOk jobDirectory archive ml tree) := by
  have chains := chains_invariant (Clean jobDirectory)
    fun made : Tree × Call => made.2.Inside jobDirectory made.1
  have serves : ServesMembers (StaysClean jobDirectory) jobDirectory archive.members := by
    intro member listed
    obtain ⟨relative, below, type⟩ := plain member listed
    refine ⟨serves_down ⟨parts member.name, ?_, below⟩, Or.inl type⟩
    rw [targetPath, relative, if_neg Bool.false_ne_true]
  have itself : Serves (StaysClean jobDirectory) (jobDirectory ++ [mlName]) :=
    serves_down ⟨[mlName], rfl, by decide⟩
  have below : ∀ entry ∈ ml,
      Serves (StaysClean jobDirectory) (jobDirectory ++ mlName :: entry.1) := by
    intro entry listed
    refine serves_down ⟨mlName :: entry.1, rfl, fun member => ?_⟩
    rcases List.mem_cons.mp member with same | inside
    · exact absurd same (by decide)
    · exact source entry listed inside
  have made : ∀ front, front <+: jobDirectory →
      Respects (StaysClean jobDirectory) (perform (.mkdir front)) :=
    fun front first => perform_staysClean (Or.inl first)
  have respects : Respects (StaysClean jobDirectory) (unpack existOk jobDirectory archive ml) :=
    unpack_respects chains made serves itself below
  exact contained_iff_inside.mpr (respects tree clean).1

end Plain

section Escaping

def jobsName : Name := ['j', 'o', 'b', 's']

def hashName : Name := ['a', '7']

def emptyJobs : Tree where
  entries place :=
    if place = [] then some (.directory 0)
    else if place = [jobsName] then some (.directory 1)
    else none
  content _ := []
  writes _ := 0
  fresh := 2
  numbered place entry found := by
    split at found
    · rw [← Option.some.inj found]
      decide
    · split at found
      · rw [← Option.some.inj found]
        decide
      · exact absurd found (Option.some_ne_none _).symm

def escaping : Archive where
  members := [⟨['.', '.', '/', 'e', 'v', 'i', 'l'], .file []⟩]
  broken := false

end Escaping

end ScalarLM.Upload
