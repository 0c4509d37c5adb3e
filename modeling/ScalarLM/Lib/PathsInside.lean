import ScalarLM.Lib.FileTree

/-! Where a path leads before a call, in terms of the path alone, and where the same path leads
after the call. -/

namespace ScalarLM.FileTree

section Leading

variable (tree : Tree) (home : Place)

def Entry.isDirectory : Entry → Bool
  | .directory _ => true
  | _ => false

/-- What is made at the path, where there is nothing yet, is made in the directory. -/
def Tree.MakesIn (path : List Name) : Prop :=
  ∀ place, tree.slot path = some place → tree.entries place = none → home <+: place

/-- What is at the path, other than a directory, is in the directory. -/
def Tree.RemovesIn (path : List Name) : Prop :=
  ∀ place, tree.slot path = some place → ∀ entry, tree.entries place = some entry →
    entry.isDirectory = false → home <+: place

/-- The source is nothing that can be linked to, or the link to it is made in the directory. -/
def Tree.LinksIn (source path : List Name) : Prop :=
  ∀ place, tree.resolve source = some place → ∀ entry, tree.entries place = some entry →
    entry.isDirectory = false → tree.MakesIn home path

/-- The file that the path leads to is in the directory, and has no name outside if it is there. -/
def Tree.WritesIn (path : List Name) : Prop :=
  ∀ place, tree.resolve path = some place → tree.isDirectory place = false →
    home <+: place ∧ ∀ entry, tree.entries place = some entry → OnlyInside home tree entry.number

/-- What the path leads to has no name outside of the directory. -/
def Tree.TouchesIn (path : List Name) : Prop :=
  ∀ place, tree.resolve path = some place → ∀ entry, tree.entries place = some entry →
    OnlyInside home tree entry.number

/-- The same of the link itself, if the path leads to a link. -/
def Tree.TouchesLinkIn (path : List Name) : Prop :=
  ∀ place, tree.slot path = some place → ∀ entry, tree.entries place = some entry →
    OnlyInside home tree entry.number

end Leading

section Calls

variable {tree : Tree} {home : Place} {path : List Name}

theorem makes_eq_ok {effect : Place → Effect} {place : Place} (found : tree.slot path = some place)
    (missing : tree.entries place = none) : tree.makes path effect = .ok (effect place) := by
  rw [Tree.makes, found]
  dsimp only
  rw [missing]

theorem makes_inside_iff {make : Place → Effect}
    (there : ∀ place, (make place).Inside home tree ↔ home <+: place) :
    (∀ effect, tree.makes path make = .ok effect → effect.Inside home tree) ↔
      tree.MakesIn home path := by
  constructor
  · intro inside place found missing
    exact (there place).mp (inside _ (makes_eq_ok found missing))
  · intro inside effect made
    obtain ⟨place, found, missing, rfl⟩ := makes_ok made
    exact (there place).mpr (inside place found missing)

@[simp] theorem mkdir_inside_iff :
    (Call.mkdir path).Inside home tree ↔ tree.MakesIn home path :=
  makes_inside_iff fun _ => Iff.rfl

@[simp] theorem mknod_inside_iff :
    (Call.mknod path).Inside home tree ↔ tree.MakesIn home path :=
  makes_inside_iff fun _ => Iff.rfl

@[simp] theorem symlink_inside_iff {target : List Char} :
    (Call.symlink target path).Inside home tree ↔ tree.MakesIn home path :=
  makes_inside_iff fun _ => Iff.rfl

@[simp] theorem link_inside_iff {source : List Name} :
    (Call.link source path).Inside home tree ↔ tree.LinksIn home source path := by
  have makes (place : Place) : (∀ effect, tree.makes path (fun new => .alias new place) =
      .ok effect → effect.Inside home tree) ↔ tree.MakesIn home path :=
    makes_inside_iff fun _ => Iff.rfl
  rw [Call.Inside, Tree.effect, Tree.LinksIn]
  cases resolved : tree.resolve source with
  | none => simp
  | some place =>
      cases found : tree.entries place with
      | none => simp [found]
      | some entry =>
          cases entry <;> simp [found, makes, Entry.isDirectory]

@[simp] theorem unlink_inside_iff :
    (Call.unlink path).Inside home tree ↔ tree.RemovesIn home path := by
  rw [Call.Inside, Tree.effect, Tree.RemovesIn]
  cases slot : tree.slot path with
  | none => simp
  | some place =>
      cases found : tree.entries place with
      | none => simp [found]
      | some entry =>
          cases entry <;> simp [found, Entry.isDirectory, Effect.Inside]

@[simp] theorem write_inside_iff {bytes : List UInt8} :
    (Call.write path bytes).Inside home tree ↔ tree.WritesIn home path := by
  rw [Call.Inside, Tree.effect, Tree.WritesIn]
  cases resolved : tree.resolve path with
  | none => simp
  | some place =>
      cases directory : tree.isDirectory place with
      | true => simp [directory]
      | false =>
          cases found : tree.entries place with
          | none => simp [directory, found, Effect.Inside]
          | some entry =>
              have only : OnlyInside home tree entry.number → home <+: place :=
                fun inside => inside place entry found rfl
              simpa [directory, found, Effect.Inside] using only

@[simp] theorem setAttributes_inside_iff :
    (Call.setAttributes path).Inside home tree ↔ tree.TouchesIn home path := by
  rw [Call.Inside, Tree.effect, Tree.TouchesIn]
  cases resolved : tree.resolve path with
  | none => simp
  | some place =>
      cases found : tree.entries place with
      | none => simp [found]
      | some entry => simp [found, Effect.Inside]

@[simp] theorem setLinkAttributes_inside_iff :
    (Call.setLinkAttributes path).Inside home tree ↔ tree.TouchesLinkIn home path := by
  rw [Call.Inside, Tree.effect, Tree.TouchesLinkIn]
  cases slot : tree.slot path with
  | none => simp
  | some place =>
      cases found : tree.entries place with
      | none => simp [found]
      | some entry => simp [found, Effect.Inside]

end Calls

section Growing

variable {tree after : Tree} {home : Place} {path : List Name}
  {follow follow' : Place → List Name → Option Place} {last : Place}

def Entry.isLeaf : Entry → Bool
  | .file _ => true
  | .special _ => true
  | _ => false

theorem isDirectory_entry {place : Place} {name : Name}
    (elsewhere : ∀ number, tree.entries (place ++ [name]) ≠ some (.directory number)) :
    tree.isDirectory (place ++ [name]) = false := by
  rw [Bool.eq_false_iff]
  intro directory
  rcases isDirectory_iff.mp directory with nothing | ⟨number, found⟩
  · exact absurd nothing (List.append_ne_nil_of_right_ne_nil _ (List.cons_ne_nil _ _))
  · exact elsewhere number found

/-- A walk to a directory goes on as before when entries are added, and one to something that is
not there comes to what has been added there, if that is no directory and no link. -/
theorem walkWith_kept
    (same : ∀ place parts, follow place parts = some last → follow' place parts = some last)
    (kept : ∀ place entry, tree.entries place = some entry → after.entries place = some entry)
    (ends : tree.isDirectory last = false →
      ∃ entry, after.entries last = some entry ∧ entry.isLeaf = true)
    {place : Place} (walked : tree.walkWith follow place path = some last) :
    after.walkWith follow' place path = some last := by
  induction path generalizing place with
  | nil => exact walked
  | cons part rest ih =>
      rw [Tree.walkWith] at walked ⊢
      by_cases itself : part = dot
      · rw [if_pos itself] at walked ⊢
        exact ih walked
      by_cases above : part = dotdot
      · rw [if_neg itself, if_pos above] at walked ⊢
        exact ih walked
      rw [if_neg itself, if_neg above] at walked ⊢
      split at walked
      · rename_i number found
        rw [kept _ _ found]
        exact ih walked
      · rename_i number target found
        rw [kept _ _ found]
        exact same _ _ walked
      · rename_i elsewhere links
        split at walked
        · rename_i empty
          have whole := Option.some.inj walked
          obtain ⟨entry, found, leaf⟩ := ends (whole ▸ isDirectory_entry elsewhere)
          rw [whole, found]
          cases entry with
          | file number => exact if_pos empty
          | special number => exact if_pos empty
          | directory number => exact absurd leaf Bool.false_ne_true
          | symlink number target => exact absurd leaf Bool.false_ne_true
        · exact absurd walked (Option.some_ne_none _).symm

theorem resolve_kept
    (kept : ∀ place entry, tree.entries place = some entry → after.entries place = some entry)
    (ends : tree.isDirectory last = false →
      ∃ entry, after.entries last = some entry ∧ entry.isLeaf = true)
    (resolved : tree.resolve path = some last) : after.resolve path = some last := by
  have walks (links : Nat) : ∀ place parts, tree.walk links place parts = some last →
      after.walk links place parts = some last := by
    induction links with
    | zero => exact fun _ _ => walkWith_kept (fun _ _ none => none) kept ends
    | succ links ih => exact fun _ _ => walkWith_kept ih kept ends
  exact walks 40 [] path resolved

theorem resolve_congr (same : after.entries = tree.entries) :
    after.resolve path = tree.resolve path := by
  have walksWith (follow : Place → List Name → Option Place) :
      after.walkWith follow = tree.walkWith follow := by
    funext place parts
    induction parts generalizing place with
    | nil => rfl
    | cons part rest ih => simp only [Tree.walkWith, same, ih]
  have walks (links : Nat) : after.walk links = tree.walk links := by
    induction links with
    | zero => exact walksWith _
    | succ links ih => rw [Tree.walk, Tree.walk, ih, walksWith]
  rw [Tree.resolve, Tree.resolve, walks]

theorem touchesIn_congr (same : after.entries = tree.entries) :
    after.TouchesIn home path ↔ tree.TouchesIn home path := by
  rw [Tree.TouchesIn, Tree.TouchesIn, resolve_congr same]
  simp only [OnlyInside, same]

/-- From the directory that a path leads to, one name more leads to the entry with this name,
unless that is a link. -/
theorem walkWith_concat {name : Name} (proper : Proper name)
    (directory : tree.isDirectory last = true)
    (plain : ∀ number target, tree.entries (last ++ [name]) ≠ some (.symlink number target))
    (same : ∀ place parts, follow place parts = some last →
      follow place (parts ++ [name]) = some (last ++ [name]))
    {place : Place} (walked : tree.walkWith follow place path = some last) :
    tree.walkWith follow place (path ++ [name]) = some (last ++ [name]) := by
  induction path generalizing place with
  | nil =>
      rw [← Option.some.inj walked] at plain ⊢
      rw [List.nil_append, Tree.walkWith, if_neg proper.1, if_neg proper.2]
      split
      · rfl
      · rename_i number target found
        exact absurd found (plain number target)
      · rfl
  | cons part rest ih =>
      rw [Tree.walkWith] at walked
      rw [List.cons_append, Tree.walkWith]
      by_cases itself : part = dot
      · rw [if_pos itself] at walked ⊢
        exact ih walked
      by_cases above : part = dotdot
      · rw [if_neg itself, if_pos above] at walked ⊢
        exact ih walked
      rw [if_neg itself, if_neg above] at walked ⊢
      split at walked
      · exact ih walked
      · rw [← List.append_assoc]
        exact same _ _ walked
      · rename_i elsewhere links
        split at walked
        · rw [← Option.some.inj walked, isDirectory_entry elsewhere] at directory
          exact absurd directory Bool.false_ne_true
        · exact absurd walked (Option.some_ne_none _).symm

theorem resolve_concat {name : Name} (proper : Proper name)
    (directory : tree.isDirectory last = true)
    (plain : ∀ number target, tree.entries (last ++ [name]) ≠ some (.symlink number target))
    (resolved : tree.resolve path = some last) :
    tree.resolve (path ++ [name]) = some (last ++ [name]) := by
  have walks (links : Nat) : ∀ place parts, tree.walk links place parts = some last →
      tree.walk links place (parts ++ [name]) = some (last ++ [name]) := by
    induction links with
    | zero =>
        refine fun _ _ => walkWith_concat proper directory plain fun _ _ walked => ?_
        exact absurd walked (Option.some_ne_none _).symm
    | succ links ih => exact fun _ _ => walkWith_concat proper directory plain ih
  exact walks 40 [] path resolved

theorem resolve_slot {place : Place} (found : tree.slot path = some place)
    (plain : ∀ number target, tree.entries place ≠ some (.symlink number target)) :
    tree.resolve path = some place := by
  obtain ⟨name, front, ending, resolved, rfl, proper, directory⟩ := slot_cases found
  rw [← dropLast_concat_getLast? ending]
  exact resolve_concat proper directory plain resolved

end Growing

section Made

variable {tree : Tree} {home place : Place} {path : List Name} {effect : Effect}

theorem entries_create {kind : Kind} {bytes : List UInt8} :
    (tree.apply (.create place kind bytes)).entries place = some (kind.entry tree.fresh) :=
  Function.update_self _ _ _

theorem entries_create_kept {kind : Kind} {bytes : List UInt8}
    (missing : tree.entries place = none) (other : Place) (entry : Entry)
    (found : tree.entries other = some entry) :
    (tree.apply (.create place kind bytes)).entries other = some entry := by
  have differs : other ≠ place := by
    intro same
    rw [same, missing] at found
    exact absurd found (Option.some_ne_none _).symm
  exact (Function.update_of_ne differs _ _).trans found

theorem touchesIn_create {kind : Kind} {bytes : List UInt8} (within : home <+: place)
    (resolved : (tree.apply (.create place kind bytes)).resolve path = some place) :
    (tree.apply (.create place kind bytes)).TouchesIn home path := by
  intro other led entry found
  rw [← Option.some.inj (resolved.symm.trans led), entries_create] at found
  rw [← Option.some.inj found, kind.number_entry]
  exact onlyInside_fresh within

theorem touchesIn_makes {kind : Kind} (inside : tree.MakesIn home path)
    (plain : ∀ target, kind ≠ .symlink target)
    (made : tree.makes path (fun new => .create new kind []) = .ok effect) :
    (tree.apply effect).TouchesIn home path := by
  obtain ⟨place, found, missing, rfl⟩ := makes_ok made
  refine touchesIn_create (inside place found missing) ?_
  obtain ⟨name, front, ending, resolved, rfl, proper, directory⟩ := slot_cases found
  rw [← dropLast_concat_getLast? ending]
  refine resolve_concat proper ?_ (fun number target => ?_) ?_
  · exact isDirectory_iff.mpr ((isDirectory_iff.mp directory).imp_right fun ⟨number, found⟩ =>
      ⟨number, entries_create_kept missing _ _ found⟩)
  · rw [entries_create]
    cases kind with
    | symlink target => exact absurd rfl (plain target)
    | directory => exact fun same => Entry.noConfusion (Option.some.inj same)
    | file => exact fun same => Entry.noConfusion (Option.some.inj same)
    | special => exact fun same => Entry.noConfusion (Option.some.inj same)
  · refine resolve_kept (entries_create_kept missing) (fun outside => ?_) resolved
    rw [directory] at outside
    exact absurd outside.symm Bool.false_ne_true

theorem touchesIn_write {bytes : List UInt8} (inside : tree.WritesIn home path)
    (written : tree.effect (.write path bytes) = .ok effect) :
    (tree.apply effect).TouchesIn home path := by
  rw [Tree.effect] at written
  split at written
  · cases written
  · rename_i place resolved
    split at written
    · cases written
    · rename_i outside
      have inside := inside place resolved (Bool.eq_false_iff.mpr outside)
      split at written
      · rename_i missing
        rw [← Except.ok.inj written]
        refine touchesIn_create inside.1 ?_
        exact resolve_kept (entries_create_kept missing)
          (fun _ => ⟨_, entries_create, rfl⟩) resolved
      · rename_i entry found
        rw [← Except.ok.inj written]
        have same : (tree.apply (.overwrite entry.number bytes)).entries = tree.entries := rfl
        refine (touchesIn_congr same).mpr fun other led another there => ?_
        rw [← Option.some.inj (resolved.symm.trans led)] at there
        exact inside.2 another there

theorem mkdir_isdir (directory : tree.isdir path = true) :
    tree.effect (.mkdir path) = .error .exists := by
  obtain ⟨place, resolved, there⟩ := (Option.any_eq_true _ _).mp directory
  rw [Tree.effect, Tree.makes]
  split
  · have present : tree.exists path = true := by
      rw [Tree.exists, resolved, Option.any_some, Tree.isThere, there, Bool.true_or]
    rw [if_pos present]
  · rename_i other found
    split
    · rename_i missing
      have led := resolve_slot found fun number target same => by
        rw [missing] at same
        exact absurd same (Option.some_ne_none _).symm
      rw [← Option.some.inj (led.symm.trans resolved)] at there
      obtain ⟨name, front, -, -, rfl, -⟩ := slot_cases found
      rw [isDirectory_entry fun number same => by
        rw [missing] at same
        exact absurd same (Option.some_ne_none _).symm] at there
      exact absurd there Bool.false_ne_true
    · rfl

theorem makesIn_there (there : tree.lexists path = true) : tree.MakesIn home path := by
  intro place found missing
  rw [Tree.lexists, found] at there
  obtain ⟨name, front, -, -, rfl, -⟩ := slot_cases found
  have nothing : tree.isThere (front ++ [name]) = false := by
    rw [Tree.isThere, isDirectory_entry fun number same => by
      rw [missing] at same
      exact absurd same (Option.some_ne_none _).symm, missing]
    rfl
  exact absurd (nothing.symm.trans there) Bool.false_ne_true

theorem slot_missing (missing : tree.lexists path = false) (found : tree.slot path = some place) :
    tree.entries place = none := by
  rw [Tree.lexists, found] at missing
  exact Option.not_isSome_iff_eq_none.mp (Bool.eq_false_iff.mp (Bool.or_eq_false_iff.mp missing).2)

theorem unlink_missing (missing : tree.lexists path = false) :
    tree.effect (.unlink path) = .error .other := by
  rw [Tree.effect]
  split
  · rfl
  · rename_i place found
    rw [slot_missing missing found]

end Made

end ScalarLM.FileTree
