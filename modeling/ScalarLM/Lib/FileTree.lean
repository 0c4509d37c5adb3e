import Mathlib.Data.List.Infix
import Mathlib.Logic.Function.Basic
import Mathlib.Tactic.Common

/-! Trees of directories, files and links, how paths are resolved in them, and where the system
calls that change them take effect. -/

namespace ScalarLM.FileTree

abbrev Name := List Char

/-- A place in the tree, by its names from the root with no links on the way. -/
abbrev Place := List Name

/-- An entry of a directory, with the number of what it stands for. -/
inductive Entry where
  | directory (number : Nat)
  | file (number : Nat)
  | special (number : Nat)
  | symlink (number : Nat) (target : List Char)

def Entry.number : Entry → Nat
  | .directory number => number
  | .file number => number
  | .special number => number
  | .symlink number _ => number

/-- `writes` is history: how often contents or attributes have been written. -/
structure Tree where
  entries : Place → Option Entry
  content : Nat → List UInt8
  writes : Nat → Nat
  fresh : Nat
  numbered : ∀ place entry, entries place = some entry → entry.number < fresh

section Paths

def parts (path : List Char) : List Name := (path.splitOn '/').filter fun part => part ≠ []

def absolute (path : List Char) : Bool := path.head? = some '/'

def dot : Name := ['.']

def dotdot : Name := ['.', '.']

variable (tree : Tree)

def Tree.isDirectory (place : Place) : Bool :=
  match place, tree.entries place with
  | [], _ => true
  | _, some (.directory _) => true
  | _, _ => false

def Tree.isThere (place : Place) : Bool := tree.isDirectory place || (tree.entries place).isSome

/-- From a directory along the parts of a path, as far as the first link; `follow` goes on from
there. The last part may be missing. -/
def Tree.walkWith (follow : Place → List Name → Option Place) : Place → List Name → Option Place
  | place, [] => some place
  | place, part :: rest =>
      if part = dot then walkWith follow place rest
      else if part = dotdot then walkWith follow place.dropLast rest
      else
        match tree.entries (place ++ [part]) with
        | some (.directory _) => walkWith follow (place ++ [part]) rest
        | some (.symlink _ target) =>
            follow (if absolute target then [] else place) (parts target ++ rest)
        | _ => if rest = [] then some (place ++ [part]) else none

def Tree.walk : Nat → Place → List Name → Option Place
  | 0 => tree.walkWith fun _ _ => none
  | links + 1 => tree.walkWith (Tree.walk links)

def Tree.resolve (path : List Name) : Option Place := tree.walk 40 [] path

def Tree.slot (path : List Name) : Option Place :=
  match path.getLast? with
  | none => none
  | some last =>
      if last = dot ∨ last = dotdot then none
      else (tree.resolve path.dropLast).bind fun place =>
        if tree.isDirectory place then some (place ++ [last]) else none

def Tree.exists (path : List Name) : Bool := (tree.resolve path).any tree.isThere

def Tree.isdir (path : List Name) : Bool := (tree.resolve path).any tree.isDirectory

def Tree.lexists (path : List Name) : Bool :=
  match tree.slot path with
  | some place => tree.isThere place
  | none => tree.exists path

end Paths

section Calls

inductive Kind where
  | directory
  | file
  | special
  | symlink (target : List Char)

def Kind.entry (number : Nat) : Kind → Entry
  | .directory => .directory number
  | .file => .file number
  | .special => .special number
  | .symlink target => .symlink number target

/-- The system calls that change a tree. Opening a file to write it also writes the bytes. -/
inductive Call where
  | mkdir (path : List Name)
  | mknod (path : List Name)
  | symlink (target : List Char) (path : List Name)
  | link (source path : List Name)
  | unlink (path : List Name)
  | write (path : List Name) (bytes : List UInt8)
  /-- `chown`, `chmod` and `utime`, through links or to a link itself. -/
  | setAttributes (path : List Name)
  | setLinkAttributes (path : List Name)

inductive Errno where
  | exists
  | other
  deriving DecidableEq

/-- Where a call takes effect. -/
inductive Effect where
  | create (place : Place) (kind : Kind) (bytes : List UInt8)
  | alias (place source : Place)
  | remove (place : Place)
  | overwrite (number : Nat) (bytes : List UInt8)
  | touch (number : Nat)

variable (tree : Tree)

def Tree.makes (path : List Name) (effect : Place → Effect) : Except Errno Effect :=
  match tree.slot path with
  | none => .error (if tree.exists path then .exists else .other)
  | some place =>
      match tree.entries place with
      | none => .ok (effect place)
      | some _ => .error .exists

/-- What a call comes to: every link on a path is followed, and the last one too unless the call
is about the entry. -/
def Tree.effect : Call → Except Errno Effect
  | .mkdir path => tree.makes path fun place => .create place .directory []
  | .mknod path => tree.makes path fun place => .create place .special []
  | .symlink target path => tree.makes path fun place => .create place (.symlink target) []
  | .link source path =>
      match tree.resolve source with
      | none => .error .other
      | some place =>
          match tree.entries place with
          | none => .error .other
          | some (.directory _) => .error .other
          | some _ => tree.makes path fun new => .alias new place
  | .unlink path =>
      match tree.slot path with
      | none => .error .other
      | some place =>
          match tree.entries place with
          | none => .error .other
          | some (.directory _) => .error .other
          | some _ => .ok (.remove place)
  | .write path bytes =>
      match tree.resolve path with
      | none => .error .other
      | some place =>
          if tree.isDirectory place then .error .other
          else
            match tree.entries place with
            | none => .ok (.create place .file bytes)
            | some entry => .ok (.overwrite entry.number bytes)
  | .setAttributes path =>
      match (tree.resolve path).bind tree.entries with
      | none => .error .other
      | some entry => .ok (.touch entry.number)
  | .setLinkAttributes path =>
      match (tree.slot path).bind tree.entries with
      | none => .error .other
      | some entry => .ok (.touch entry.number)

theorem Kind.number_entry (kind : Kind) (number : Nat) : (kind.entry number).number = number := by
  cases kind <;> rfl

def Tree.apply : Effect → Tree
  | .create place kind bytes =>
      { entries := Function.update tree.entries place (some (kind.entry tree.fresh))
        content := Function.update tree.content tree.fresh bytes
        writes := tree.writes
        fresh := tree.fresh + 1
        numbered := by
          intro other entry found
          by_cases same : other = place
          · rw [same, Function.update_self] at found
            rw [← Option.some.inj found, kind.number_entry]
            exact Nat.lt_succ_self _
          · rw [Function.update_of_ne same] at found
            exact Nat.lt_succ_of_lt (tree.numbered other entry found) }
  | .alias place source =>
      { tree with
        entries := Function.update tree.entries place (tree.entries source)
        numbered := by
          intro other entry found
          by_cases same : other = place
          · rw [same, Function.update_self] at found
            exact tree.numbered source entry found
          · rw [Function.update_of_ne same] at found
            exact tree.numbered other entry found }
  | .remove place =>
      { tree with
        entries := Function.update tree.entries place none
        numbered := by
          intro other entry found
          by_cases same : other = place
          · rw [same, Function.update_self] at found
            exact absurd found (Option.some_ne_none _).symm
          · rw [Function.update_of_ne same] at found
            exact tree.numbered other entry found }
  | .overwrite number bytes =>
      { tree with
        content := Function.update tree.content number bytes
        writes := Function.update tree.writes number (tree.writes number + 1) }
  | .touch number =>
      { tree with writes := Function.update tree.writes number (tree.writes number + 1) }

def Tree.after (call : Call) : Tree :=
  match tree.effect call with
  | .ok effect => tree.apply effect
  | .error _ => tree

end Calls

section Outside

variable {tree : Tree} {home : Place}

/-- Whatever is outside of a directory is as before: each entry, and what it stands for. -/
def SameOutside (home : Place) (before after : Tree) : Prop :=
  ∀ place, ¬ home <+: place → after.entries place = before.entries place ∧
    ∀ entry, before.entries place = some entry →
      after.content entry.number = before.content entry.number ∧
        after.writes entry.number = before.writes entry.number

theorem SameOutside.refl (home : Place) (tree : Tree) : SameOutside home tree tree :=
  fun _ _ => ⟨rfl, fun _ _ => ⟨rfl, rfl⟩⟩

theorem SameOutside.trans {first second third : Tree} (earlier : SameOutside home first second)
    (later : SameOutside home second third) : SameOutside home first third := by
  intro place outside
  obtain ⟨entry, contents⟩ := earlier place outside
  obtain ⟨entry', contents'⟩ := later place outside
  refine ⟨entry'.trans entry, fun found listed => ?_⟩
  obtain ⟨content, writes⟩ := contents found listed
  obtain ⟨content', writes'⟩ := contents' found (entry.trans listed)
  exact ⟨content'.trans content, writes'.trans writes⟩

/-- Everything with the number is in the directory. -/
def OnlyInside (home : Place) (tree : Tree) (number : Nat) : Prop :=
  ∀ place entry, tree.entries place = some entry → entry.number = number → home <+: place

/-- The effect is inside of a directory: at a place in it, or on what has no name elsewhere. -/
def Effect.Inside (home : Place) (tree : Tree) : Effect → Prop
  | .create place _ _ => home <+: place
  | .alias place _ => home <+: place
  | .remove place => home <+: place
  | .overwrite number _ => OnlyInside home tree number
  | .touch number => OnlyInside home tree number

def Effect.Possible (tree : Tree) : Effect → Prop
  | .create place _ _ => tree.entries place = none
  | .alias place source => tree.entries place = none ∧ tree.entries source ≠ none
  | .remove place => tree.entries place ≠ none
  | _ => True

theorem makes_ok {path : List Name} {effect : Place → Effect} {result : Effect}
    (made : tree.makes path effect = .ok result) :
    ∃ place, tree.slot path = some place ∧ tree.entries place = none ∧ result = effect place := by
  rw [Tree.makes] at made
  split at made
  · cases made
  · rename_i place found
    split at made
    · rename_i missing
      exact ⟨place, found, missing, (Except.ok.inj made).symm⟩
    · cases made

theorem effect_possible {call : Call} {effect : Effect} (result : tree.effect call = .ok effect) :
    effect.Possible tree := by
  cases call with
  | mkdir path =>
      obtain ⟨place, -, missing, rfl⟩ := makes_ok result
      exact missing
  | mknod path =>
      obtain ⟨place, -, missing, rfl⟩ := makes_ok result
      exact missing
  | symlink target path =>
      obtain ⟨place, -, missing, rfl⟩ := makes_ok result
      exact missing
  | link source path =>
      rw [Tree.effect] at result
      split at result
      · cases result
      · split at result
        · cases result
        · cases result
        · rename_i entry _ found
          obtain ⟨place, -, missing, rfl⟩ := makes_ok result
          exact ⟨missing, by rw [found]; exact Option.some_ne_none _⟩
  | unlink path =>
      rw [Tree.effect] at result
      split at result
      · cases result
      · split at result
        · cases result
        · cases result
        · rename_i entry _ found
          rw [← Except.ok.inj result]
          exact fun missing => Option.some_ne_none _ (found.symm.trans missing)
  | write path bytes =>
      rw [Tree.effect] at result
      split at result
      · cases result
      · split at result
        · cases result
        · split at result
          · rename_i missing
            rw [← Except.ok.inj result]
            exact missing
          · rw [← Except.ok.inj result]
            exact trivial
  | setAttributes path =>
      rw [Tree.effect] at result
      split at result
      · cases result
      · rw [← Except.ok.inj result]
        exact trivial
  | setLinkAttributes path =>
      rw [Tree.effect] at result
      split at result
      · cases result
      · rw [← Except.ok.inj result]
        exact trivial

/-- A new entry at a place changes the outside exactly if the place is there. -/
theorem sameOutside_entry_iff {place : Place} {entry : Option Entry}
    (differs : entry ≠ tree.entries place) {after : Tree}
    (entries : after.entries = Function.update tree.entries place entry)
    (contents : ∀ other found, tree.entries other = some found →
      after.content found.number = tree.content found.number ∧
        after.writes found.number = tree.writes found.number) :
    SameOutside home tree after ↔ home <+: place := by
  constructor
  · intro same
    by_contra outside
    have kept := (same place outside).1
    rw [entries, Function.update_self] at kept
    exact differs kept
  · intro inside other outside
    refine ⟨?_, contents other⟩
    rw [entries, Function.update_of_ne]
    exact fun equal => outside (equal ▸ inside)

/-- Writing to something changes the outside exactly if it has a name there. -/
theorem sameOutside_writes_iff {number : Nat} {after : Tree}
    (entries : after.entries = tree.entries)
    (writes : after.writes = Function.update tree.writes number (tree.writes number + 1))
    (contents : ∀ other, other ≠ number → after.content other = tree.content other) :
    SameOutside home tree after ↔ OnlyInside home tree number := by
  constructor
  · intro same place entry found numbered
    by_contra outside
    have kept := ((same place outside).2 entry found).2
    rw [writes, numbered, Function.update_self] at kept
    exact absurd kept (Nat.succ_ne_self _)
  · intro inside place outside
    refine ⟨by rw [entries], fun entry found => ?_⟩
    have differs : entry.number ≠ number := fun same => outside (inside place entry found same)
    refine ⟨contents _ differs, ?_⟩
    rw [writes, Function.update_of_ne differs]

theorem sameOutside_apply_iff {effect : Effect} (possible : effect.Possible tree) :
    SameOutside home tree (tree.apply effect) ↔ effect.Inside home tree := by
  cases effect with
  | create place kind bytes =>
      refine sameOutside_entry_iff ?_ rfl fun other entry found => ⟨?_, rfl⟩
      · rw [show tree.entries place = none from possible]
        exact Option.some_ne_none _
      · exact Function.update_of_ne (Nat.ne_of_lt (tree.numbered other entry found)) _ _
  | «alias» place source =>
      refine sameOutside_entry_iff ?_ rfl fun _ _ _ => ⟨rfl, rfl⟩
      rw [possible.1]
      exact possible.2
  | remove place => exact sameOutside_entry_iff (Ne.symm possible) rfl fun _ _ _ => ⟨rfl, rfl⟩
  | overwrite number bytes =>
      exact sameOutside_writes_iff rfl rfl fun other differs => Function.update_of_ne differs _ _
  | touch number => exact sameOutside_writes_iff rfl rfl fun _ _ => rfl

def Call.Inside (home : Place) (tree : Tree) (call : Call) : Prop :=
  ∀ effect, tree.effect call = .ok effect → effect.Inside home tree

/-- A call leaves the outside as it is exactly if it leads inside. -/
theorem sameOutside_after_iff (home : Place) (tree : Tree) (call : Call) :
    SameOutside home tree (tree.after call) ↔ call.Inside home tree := by
  rw [Tree.after, Call.Inside]
  cases result : tree.effect call with
  | error errno =>
      refine iff_of_true (SameOutside.refl home tree) fun effect other => ?_
      cases other
  | ok effect =>
      dsimp only
      rw [sameOutside_apply_iff (effect_possible result)]
      constructor
      · intro inside other same
        exact Except.ok.inj same ▸ inside
      · exact fun inside => inside effect rfl

end Outside

section Clean

variable {tree : Tree} {home : Place} {follow : Place → List Name → Option Place}

def Proper (name : Name) : Prop := name ≠ dot ∧ name ≠ dotdot

/-- The directory lies in directories, there are no links in it, and nothing in it has a name
outside. -/
structure Clean (home : Place) (tree : Tree) : Prop where
  proper : ∀ name ∈ home, Proper name
  above : ∀ front, front <+: home → front ≠ home → tree.isDirectory front = true
  inside : ∀ place entry, home <+: place → tree.entries place = some entry →
    (∀ number target, entry ≠ .symlink number target) ∧ OnlyInside home tree entry.number

theorem isDirectory_iff {place : Place} : tree.isDirectory place = true ↔
    place = [] ∨ ∃ number, tree.entries place = some (.directory number) := by
  unfold Tree.isDirectory
  split
  · exact iff_of_true rfl (Or.inl rfl)
  · rename_i number _ found
    exact iff_of_true rfl (Or.inr ⟨number, found⟩)
  · rename_i nonempty other
    exact iff_of_false Bool.false_ne_true (not_or.mpr ⟨nonempty, not_exists.mpr other⟩)

theorem Clean.directory_above (clean : Clean home tree) {place : Place} {part : Name}
    (first : place ++ [part] <+: home) (shorter : place ++ [part] ≠ home) :
    ∃ number, tree.entries (place ++ [part]) = some (.directory number) := by
  rcases isDirectory_iff.mp (clean.above (place ++ [part]) first shorter) with empty | directory
  · exact absurd empty (List.append_ne_nil_of_right_ne_nil _ (List.cons_ne_nil _ _))
  · exact directory

/-- From a place inside, and never going up, a walk stays inside. -/
theorem Clean.walk_inside (clean : Clean home tree) {place last : Place} {rest : List Name}
    (inside : home <+: place) (down : dotdot ∉ rest)
    (walked : tree.walkWith follow place rest = some last) : home <+: last := by
  induction rest generalizing place with
  | nil => exact Option.some.inj walked ▸ inside
  | cons part rest ih =>
      rw [List.mem_cons, not_or] at down
      have further := inside.trans (List.prefix_append place [part])
      rw [Tree.walkWith, if_neg (Ne.symm down.1)] at walked
      split at walked
      · exact ih inside down.2 walked
      · split at walked
        · exact ih further down.2 walked
        · rename_i number target found
          exact absurd rfl ((clean.inside _ _ further found).1 number target)
        · split at walked
          · exact Option.some.inj walked ▸ further
          · exact absurd walked (Option.some_ne_none _).symm

theorem Clean.walk_home (clean : Clean home tree) {place last : Place} {more rest : List Name}
    (split : place ++ more = home) (down : dotdot ∉ rest)
    (walked : tree.walkWith follow place (more ++ rest) = some last) : home <+: last := by
  induction more generalizing place with
  | nil =>
      rw [List.append_nil] at split
      exact clean.walk_inside (split ▸ List.prefix_refl _) down walked
  | cons part more ih =>
      have member : part ∈ home := by
        rw [← split]
        exact List.mem_append_right _ List.mem_cons_self
      have next : place ++ [part] ++ more = home := by
        rw [List.append_assoc, List.singleton_append, split]
      have proper := clean.proper part member
      rw [List.cons_append, Tree.walkWith, if_neg proper.1, if_neg proper.2] at walked
      split at walked
      · exact ih next walked
      · rename_i number target found
        by_cases whole : place ++ [part] = home
        · exact absurd rfl ((clean.inside _ _ (whole ▸ List.prefix_refl _) found).1 number target)
        · obtain ⟨other, same⟩ := clean.directory_above ⟨more, next⟩ whole
          rw [found] at same
          exact absurd (Option.some.inj same) Entry.noConfusion
      · rename_i missing _
        by_cases whole : place ++ [part] = home
        · split at walked
          · rw [← Option.some.inj walked, whole]
          · exact absurd walked (Option.some_ne_none _).symm
        · obtain ⟨other, same⟩ := clean.directory_above ⟨more, next⟩ whole
          exact absurd same (missing other)

theorem Clean.resolve (clean : Clean home tree) {rest : List Name} (down : dotdot ∉ rest)
    {place : Place} (resolved : tree.resolve (home ++ rest) = some place) : home <+: place :=
  clean.walk_home (List.nil_append home) down resolved

theorem Clean.walk_above (clean : Clean home tree) {place : Place} {more : List Name}
    (front : place ++ more <+: home) (shorter : place ++ more ≠ home) :
    tree.walkWith follow place more = some (place ++ more) := by
  induction more generalizing place with
  | nil => rw [Tree.walkWith, List.append_nil]
  | cons part more ih =>
      have next : place ++ [part] ++ more = place ++ part :: more := by simp
      have member : part ∈ home := front.subset (by simp)
      have proper := clean.proper part member
      have prior : place ++ [part] <+: home := by
        refine List.IsPrefix.trans ⟨more, ?_⟩ front
        simp
      have differs : place ++ [part] ≠ home := by
        intro same
        have long := front.length_le
        rw [← same, ← next, List.length_append] at long
        have whole : more = [] := List.length_eq_zero_iff.mp (by omega)
        rw [whole] at shorter
        exact shorter same
      rw [Tree.walkWith, if_neg proper.1, if_neg proper.2]
      obtain ⟨number, found⟩ := clean.directory_above prior differs
      rw [found]
      dsimp only
      rw [ih (next.symm ▸ front) (next.symm ▸ shorter), next]

theorem Clean.resolve_above (clean : Clean home tree) {front : Place} (first : front <+: home)
    (shorter : front ≠ home) : tree.resolve front = some front := by
  have walked : tree.walkWith (tree.walk 39) [] front = some ([] ++ front) :=
    clean.walk_above first shorter
  exact walked

theorem slot_cases {path : List Name} {place : Place} (found : tree.slot path = some place) :
    ∃ last front, path.getLast? = some last ∧ tree.resolve path.dropLast = some front ∧
      place = front ++ [last] ∧ Proper last ∧ tree.isDirectory front = true := by
  rw [Tree.slot] at found
  split at found
  · exact absurd found (Option.some_ne_none _).symm
  · rename_i last ending
    split at found
    · exact absurd found (Option.some_ne_none _).symm
    · rename_i proper
      obtain ⟨front, resolved, whole⟩ := Option.bind_eq_some_iff.mp found
      split at whole
      · rename_i directory
        exact ⟨last, front, ending, resolved, (Option.some.inj whole).symm, not_or.mp proper,
          directory⟩
      · exact absurd whole (Option.some_ne_none _).symm

theorem dropLast_concat_getLast? {path : List Name} {last : Name}
    (ending : path.getLast? = some last) : path.dropLast ++ [last] = path := by
  obtain ⟨front, rfl⟩ := List.getLast?_eq_some_iff.mp ending
  rw [List.dropLast_concat]

theorem Clean.slot_above (clean : Clean home tree) {front : Place} (first : front <+: home)
    {place : Place} (found : tree.slot front = some place) : place = front := by
  obtain ⟨last, upper, ending, resolved, rfl, -⟩ := slot_cases found
  have whole := dropLast_concat_getLast? ending
  have prior : front.dropLast <+: home := (List.dropLast_prefix front).trans first
  have shorter : front.dropLast ≠ home := by
    intro same
    have long := first.length_le
    rw [← same, ← whole, List.length_append, List.dropLast_concat, List.length_singleton] at long
    omega
  rw [clean.resolve_above prior shorter] at resolved
  rw [← Option.some.inj resolved, whole]

theorem Clean.slot (clean : Clean home tree) {rest : List Name} (down : dotdot ∉ rest)
    {place : Place} (found : tree.slot (home ++ rest) = some place) : home <+: place := by
  by_cases empty : rest = []
  · rw [empty, List.append_nil] at found
    rw [clean.slot_above (List.prefix_refl home) found]
  · obtain ⟨last, upper, -, resolved, rfl, -⟩ := slot_cases found
    rw [List.dropLast_append_of_ne_nil empty] at resolved
    have below : dotdot ∉ rest.dropLast := fun member => down (List.mem_of_mem_dropLast member)
    exact (clean.resolve below resolved).trans (List.prefix_append _ _)

theorem Clean.of_entries (clean : Clean home tree) {after : Tree}
    (same : after.entries = tree.entries) : Clean home after where
  proper := clean.proper
  above front first shorter := by
    have directory := clean.above front first shorter
    unfold Tree.isDirectory at directory ⊢
    rw [same]
    exact directory
  inside place entry within found := by
    rw [same] at found
    refine ⟨(clean.inside place entry within found).1, fun other listed present => ?_⟩
    rw [same] at present
    exact (clean.inside place entry within found).2 other listed present

theorem onlyInside_fresh {place : Place} {kind : Kind} {bytes : List UInt8}
    (within : home <+: place) :
    OnlyInside home (tree.apply (.create place kind bytes)) tree.fresh := by
  intro other entry present equal
  by_cases there : other = place
  · rw [there]
    exact within
  · have earlier : tree.entries other = some entry := by
      rw [← present]
      exact (Function.update_of_ne there _ _).symm
    exact absurd equal (Nat.ne_of_lt (tree.numbered other entry earlier))

theorem Clean.create (clean : Clean home tree) {place : Place} {kind : Kind}
    {bytes : List UInt8} (within : home <+: place) (plain : ∀ target, kind ≠ .symlink target) :
    Clean home (tree.apply (.create place kind bytes)) where
  proper := clean.proper
  above front first shorter := by
    have elsewhere : front ≠ place := by
      intro same
      exact shorter (first.eq_of_length (Nat.le_antisymm first.length_le (same ▸ within.length_le)))
    have directory := clean.above front first shorter
    unfold Tree.isDirectory at directory ⊢
    have kept : (tree.apply (.create place kind bytes)).entries front = tree.entries front :=
      Function.update_of_ne elsewhere _ _
    rw [kept]
    exact directory
  inside other entry inside found := by
    have entries : (tree.apply (.create place kind bytes)).entries =
        Function.update tree.entries place (some (kind.entry tree.fresh)) := rfl
    by_cases same : other = place
    · rw [same, entries, Function.update_self] at found
      rw [← Option.some.inj found]
      refine ⟨fun number target => ?_, fun third listed present equal => ?_⟩
      · cases kind with
        | symlink target => exact absurd rfl (plain target)
        | directory => exact Entry.noConfusion
        | file => exact Entry.noConfusion
        | special => exact Entry.noConfusion
      · exact onlyInside_fresh within third listed present (equal.trans (kind.number_entry _))
    · rw [entries, Function.update_of_ne same] at found
      refine ⟨(clean.inside other entry inside found).1, fun third listed present equal => ?_⟩
      by_cases there : third = place
      · rw [there]
        exact within
      · rw [entries, Function.update_of_ne there] at present
        exact (clean.inside other entry inside found).2 third listed present equal

end Clean

section PlainCalls

variable {tree : Tree} {home : Place}

def Down (home : Place) (path : List Name) : Prop := ∃ rest, path = home ++ rest ∧ dotdot ∉ rest

/-- The calls that can do no harm in a clean directory. -/
def Call.Plain (home : Place) : Call → Prop
  | .mkdir path => path <+: home ∨ Down home path
  | .mknod path => Down home path
  | .write path _ => Down home path
  | .setAttributes path => Down home path
  | _ => False

theorem Clean.made (clean : Clean home tree) {path : List Name}
    (plain : path <+: home ∨ Down home path) {place : Place}
    (found : tree.slot path = some place) (missing : tree.entries place = none) :
    home <+: place := by
  rcases plain with first | ⟨rest, rfl, down⟩
  · have itself := clean.slot_above first found
    by_cases whole : path = home
    · rw [itself, whole]
    · rcases isDirectory_iff.mp (clean.above path first whole) with empty | ⟨number, there⟩
      · rw [empty] at found
        exact absurd found (Option.some_ne_none _).symm
      · rw [itself, there] at missing
        exact absurd missing (Option.some_ne_none _)
  · exact clean.slot down found

/-- What a call does to a clean directory. -/
theorem Clean.apply (clean : Clean home tree) {call : Call} (plain : call.Plain home)
    {effect : Effect} (result : tree.effect call = .ok effect) :
    effect.Inside home tree ∧ Clean home (tree.apply effect) := by
  cases call with
  | mkdir path =>
      obtain ⟨place, found, missing, rfl⟩ := makes_ok result
      have within := clean.made plain found missing
      exact ⟨within, clean.create within fun target => Kind.noConfusion⟩
  | mknod path =>
      obtain ⟨place, found, missing, rfl⟩ := makes_ok result
      have within := clean.made (Or.inr plain) found missing
      exact ⟨within, clean.create within fun target => Kind.noConfusion⟩
  | write path bytes =>
      obtain ⟨rest, rfl, down⟩ := plain
      rw [Tree.effect] at result
      split at result
      · cases result
      · rename_i place resolved
        have within := clean.resolve down resolved
        split at result
        · cases result
        · split at result
          · rw [← Except.ok.inj result]
            exact ⟨within, clean.create within fun target => Kind.noConfusion⟩
          · rename_i entry there
            rw [← Except.ok.inj result]
            exact ⟨(clean.inside place entry within there).2, clean.of_entries rfl⟩
  | setAttributes path =>
      obtain ⟨rest, rfl, down⟩ := plain
      rw [Tree.effect] at result
      split at result
      · cases result
      · rename_i entry found
        obtain ⟨place, resolved, there⟩ := Option.bind_eq_some_iff.mp found
        rw [← Except.ok.inj result]
        exact ⟨(clean.inside place entry (clean.resolve down resolved) there).2,
          clean.of_entries rfl⟩
  | symlink target path => exact absurd plain id
  | link source path => exact absurd plain id
  | unlink path => exact absurd plain id
  | setLinkAttributes path => exact absurd plain id

theorem Clean.after (clean : Clean home tree) {call : Call} (plain : call.Plain home) :
    call.Inside home tree ∧ Clean home (tree.after call) := by
  rw [Tree.after]
  cases result : tree.effect call with
  | error errno =>
      refine ⟨fun effect other => ?_, clean⟩
      rw [result] at other
      cases other
  | ok effect =>
      refine ⟨fun other same => ?_, (clean.apply plain result).2⟩
      rw [result] at same
      exact Except.ok.inj same ▸ (clean.apply plain result).1

end PlainCalls

end ScalarLM.FileTree
