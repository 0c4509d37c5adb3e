import ScalarLM.Training.SurgeonExact

/-! The walk over the modules while it puts adapters in, and when its result is exact. -/

namespace ScalarLM.Training

section Steps

variable {tree : NamedTree} {others : OtherAttributes} {visited : List Path}
  {wrapper : Path → Nat} {surgery : Surgery} {stack : List WalkFrame}

theorem walkModules_more {fuel : Nat} {after : Surgery}
    (ran : walkModules others fuel stack surgery = .ok after) (more : Nat) :
    walkModules others (fuel + more) stack surgery = .ok after := by
  induction fuel generalizing stack surgery with
  | zero => exact absurd ran (by simp [walkModules])
  | succ fuel ih =>
      rw [Nat.succ_add]
      cases stack with
      | nil => exact ran
      | cons frame stack =>
          simp only [walkModules] at ran ⊢
          split at ran
          · exact absurd ran (by simp)
          · rename_i same
            rw [if_neg same]
            split at ran
            · exact ih ran
            · split at ran
              · rename_i seen
                rw [if_pos seen]
                exact ih ran
              · rename_i unseen
                rw [if_neg unseen]
                split at ran
                · exact absurd ran (by simp)
                · exact ih ran

def frameAt (tree : NamedTree) (path : Path) (position : Nat) : WalkFrame :=
  ⟨.original path, path, position, (tree.children path).length⟩

theorem Inserted.size (inserted : Inserted tree visited wrapper surgery) {path : Path}
    (contained : tree.Contains path) :
    (surgery.heap (.original path)).entries.length = (tree.children path).length := by
  rw [inserted.slots path contained, List.length_map]

theorem walkModules_past {frame : WalkFrame}
    (size : (surgery.heap frame.module).entries.length = frame.size)
    (past : (surgery.heap frame.module).entries[frame.position]? = none) (fuel : Nat) :
    walkModules others (fuel + 1) (frame :: stack) surgery =
      walkModules others fuel stack surgery := by
  simp only [walkModules]
  rw [if_neg (not_not_intro size), past]

theorem walkModules_child {frame : WalkFrame} {name : Name} {child : ModuleRef}
    (size : (surgery.heap frame.module).entries.length = frame.size)
    (found : (surgery.heap frame.module).entries[frame.position]? = some (name, child))
    (unseen : child ∉ surgery.memo) (fuel : Nat) :
    walkModules others (fuel + 1) (frame :: stack) surgery =
      (updateMlp others (frame.path ++ [name]) child
          { surgery with memo := child :: surgery.memo } >>= fun updated =>
        walkModules others fuel
          (⟨child, frame.path ++ [name], 0, (updated.heap child).entries.length⟩ ::
            { frame with position := frame.position + 1 } :: stack) updated) := by
  simp only [walkModules]
  rw [if_neg (not_not_intro size), found]
  simp only [if_neg unseen]
  cases updateMlp others (frame.path ++ [name]) child
      { surgery with memo := child :: surgery.memo } <;> rfl

theorem Inserted.walk_pop (inserted : Inserted tree visited wrapper surgery) {path : Path}
    (contained : tree.Contains path) (fuel : Nat) :
    walkModules others (fuel + 1) (frameAt tree path (tree.children path).length :: stack)
        surgery = walkModules others fuel stack surgery := by
  have size := inserted.size contained
  exact walkModules_past size (List.getElem?_eq_none (Nat.le_of_eq size)) fuel

theorem Inserted.walk_next (inserted : Inserted tree visited wrapper surgery) {path : Path}
    {before after : List Name} {name : Name} (contained : tree.Contains path)
    (children : tree.children path = before ++ name :: after)
    (unvisited : path ++ [name] ∉ visited) (fuel : Nat) :
    walkModules others (fuel + 1) (frameAt tree path before.length :: stack) surgery =
      (updateMlp others (path ++ [name]) (.original (path ++ [name]))
          { surgery with memo := .original (path ++ [name]) :: surgery.memo } >>= fun updated =>
        walkModules others fuel
          (⟨.original (path ++ [name]), path ++ [name], 0,
              (updated.heap (.original (path ++ [name]))).entries.length⟩ ::
            frameAt tree path (before.length + 1) :: stack) updated) := by
  have here : (surgery.heap (.original path)).entries[before.length]? =
      some (name, .original (path ++ [name])) := by
    rw [inserted.slots path contained, children, List.getElem?_map,
      List.getElem?_append_right (Nat.le_refl _), Nat.sub_self, List.getElem?_cons_zero,
      Option.map_some, slotOf, if_neg fun both => unvisited both.2]
  have unseen : ModuleRef.original (path ++ [name]) ∉ surgery.memo := by
    rw [inserted.memo]
    intro seen
    obtain ⟨other, member, same⟩ := List.mem_map.mp seen
    exact unvisited (ModuleRef.original.inj same ▸ member)
  exact walkModules_child (inserted.size contained) here unseen fuel

end Steps

section Walk

variable {tree : NamedTree} {others : OtherAttributes} {visited : List Path}
  {wrapper : Path → Nat} {surgery : Surgery} {stack : List WalkFrame}

def Leads (others : OtherAttributes) (stack : List WalkFrame) (surgery : Surgery)
    (later : List WalkFrame) (after : Surgery) : Prop :=
  ∃ steps, ∀ fuel,
    walkModules others (fuel + steps) stack surgery = walkModules others fuel later after

theorem Leads.trans {middle later : List WalkFrame} {between after : Surgery}
    (first : Leads others stack surgery middle between)
    (second : Leads others middle between later after) :
    Leads others stack surgery later after := by
  obtain ⟨steps, first⟩ := first
  obtain ⟨more, second⟩ := second
  refine ⟨more + steps, fun fuel => ?_⟩
  rw [← Nat.add_assoc, first, second]

/-- No result of the walk is exact. -/
def Spoils (others : OtherAttributes) (tree : NamedTree) (stack : List WalkFrame)
    (surgery : Surgery) : Prop :=
  ∀ fuel after, walkModules others fuel stack surgery = .ok after → ¬ Exact tree after.heap

theorem Leads.spoils {later : List WalkFrame} {after : Surgery}
    (leads : Leads others stack surgery later after) (spoils : Spoils others tree later after) :
    Spoils others tree stack surgery := by
  obtain ⟨steps, leads⟩ := leads
  intro fuel result ran
  exact spoils fuel result (by rw [← leads]; exact walkModules_more ran steps)

def Below (path : Path) (names : List Name) (inner : Path) : Prop :=
  ∃ name ∈ names, path ++ [name] <+: inner

theorem below_cons_iff {path inner : Path} {name : Name} {names : List Name} :
    Below path (name :: names) inner ↔ path ++ [name] <+: inner ∨ Below path names inner := by
  simp [Below]

theorem not_below_sibling {path inner : Path} {name : Name} {names : List Name}
    (distinct : name ∉ names) (inside : path ++ [name] <+: inner) : ¬ Below path names inner := by
  intro below
  obtain ⟨other, listed, beside⟩ := below
  have length : (path ++ [name]).length = (path ++ [other]).length := by
    rw [List.length_append, List.length_append, List.length_singleton, List.length_singleton]
  have same := (List.prefix_of_prefix_length_le inside beside length.le).eq_of_length length
  exact distinct ((List.cons.inj (List.append_cancel_left same)).1 ▸ listed)

theorem not_below_child {path inner : Path} {name : Name} {names children : List Name}
    (ahead : ∀ inner ∈ visited, ¬ Below path (name :: names) inner)
    (member : inner ∈ (path ++ [name]) :: visited) : ¬ Below (path ++ [name]) children inner := by
  intro below
  obtain ⟨further, -, first⟩ := below
  rcases List.mem_cons.mp member with rfl | member
  · have longer := first.length_le
    rw [@List.length_append _ _ [further], List.length_singleton] at longer
    omega
  · exact ahead inner member ⟨name, List.mem_cons_self, (List.prefix_append _ _).trans first⟩

theorem not_below_later {path inner : Path} {name : Name} {names children : List Name}
    (ahead : ∀ inner ∈ visited, ¬ Below path (name :: names) inner) (distinct : name ∉ names)
    (member : inner ∈ (path ++ [name]) :: visited ∨
      tree.Contains inner ∧ Below (path ++ [name]) children inner) :
    ¬ Below path names inner := by
  intro below
  rcases member with seen | ⟨-, further, -, first⟩
  · rcases List.mem_cons.mp seen with rfl | old
    · exact not_below_sibling distinct (List.prefix_refl _) below
    · exact ahead inner old (below_cons_iff.mpr (Or.inr below))
  · exact not_below_sibling distinct ((List.prefix_append _ _).trans first) below

theorem NamedTree.Contains.below {path inner : Path} (contained : tree.Contains inner)
    (inside : path <+: inner) : inner = path ∨ Below path (tree.children path) inner := by
  obtain ⟨rest, rfl⟩ := inside
  cases rest with
  | nil => exact Or.inl (List.append_nil _)
  | cons name rest =>
      have first : path ++ [name] <+: path ++ name :: rest := ⟨rest, by simp⟩
      exact Or.inr ⟨name, ((NamedTree.contains_concat_iff path name).mp
        (contained.of_prefix first)).2, first⟩

/-- The walk comes to its later frames with all modules below these children visited, none of
which lies inside a module that is wrapped. -/
def Covers (others : OtherAttributes) (tree : NamedTree) (path : Path) (names : List Name)
    (visited : List Path) (stack : List WalkFrame) (surgery : Surgery)
    (later : List WalkFrame) : Prop :=
  ∃ visited' wrapper after, Leads others stack surgery later after ∧
    Inserted tree visited' wrapper after ∧
    (∀ inner, inner ∈ visited' ↔ inner ∈ visited ∨ tree.Contains inner ∧ Below path names inner) ∧
    ∀ inner, tree.Contains inner → Below path names inner → ∀ outer, ¬ Nested tree outer inner

/-- The loop over the children that are left of a module either covers them, or goes wrong at a
module that lies inside a wrapped one. -/
def Decided (others : OtherAttributes) (tree : NamedTree) (path : Path) (names : List Name)
    (visited : List Path) (stack : List WalkFrame) (surgery : Surgery)
    (later : List WalkFrame) : Prop :=
  Covers others tree path names visited stack surgery later ∨
    (∃ outer inner, Nested tree outer inner) ∧ Spoils others tree stack surgery

theorem Inserted.spoils (inserted : Inserted tree visited wrapper surgery) {path outer : Path}
    {before after : List Name} {name : Name}
    (children : tree.children path = before ++ name :: after)
    (unvisited : path ++ [name] ∉ visited) (above : ∀ front, front <+: path → front ∈ visited)
    (nested : Nested tree outer (path ++ [name])) :
    Spoils others tree (frameAt tree path before.length :: stack) surgery := by
  have inPath := (NamedTree.contains_concat_iff path name).mp nested.contained
  have seen : outer ∈ visited := by
    rcases List.prefix_concat_iff.mp nested.inside with same | inside
    · exact absurd same nested.proper
    · exact above outer inside
  intro fuel result ran
  cases fuel with
  | zero => exact absurd ran (by simp [walkModules])
  | succ fuel =>
      rw [inserted.walk_next inPath.1 children unvisited] at ran
      cases updating : updateMlp others (path ++ [name]) (.original (path ++ [name]))
          { surgery with memo := .original (path ++ [name]) :: surgery.memo } with
      | error stop =>
          rw [updating] at ran
          exact absurd ran (by simp [bind, Except.bind])
      | ok updated =>
          rw [updating] at ran
          have misplaced := inserted.misplace nested seen unvisited updating
          exact (misplaced.walk ran).not_exact nested.contained nested.innerMlp

theorem Covers.trans {path : Path} {name : Name} {names : List Name} {middle later : List WalkFrame}
    {between : Surgery} {between' : List Path}
    (leads : Leads others stack surgery middle between)
    (outermost : ∀ outer, ¬ Nested tree outer (path ++ [name]))
    (inside : ∀ inner, tree.Contains inner → Below (path ++ [name])
      (tree.children (path ++ [name])) inner → ∀ outer, ¬ Nested tree outer inner)
    (between'Is : ∀ inner, inner ∈ between' ↔ inner ∈ (path ++ [name]) :: visited ∨
      tree.Contains inner ∧ Below (path ++ [name]) (tree.children (path ++ [name])) inner)
    (contained : tree.Contains (path ++ [name]))
    (rest : Covers others tree path names between' middle between later) :
    Covers others tree path (name :: names) visited stack surgery later := by
  obtain ⟨visited', wrapper, after, further, inserted, visited'Is, clear⟩ := rest
  refine ⟨visited', wrapper, after, leads.trans further, inserted, fun inner => ?_, ?_⟩
  · rw [visited'Is, between'Is, List.mem_cons, below_cons_iff]
    constructor
    · intro either
      rcases either with ((same | old) | ⟨below, deep⟩) | ⟨below, beside⟩
      · exact Or.inr ⟨same ▸ contained, Or.inl (same ▸ List.prefix_refl _)⟩
      · exact Or.inl old
      · obtain ⟨next, -, first⟩ := deep
        exact Or.inr ⟨below, Or.inl ((List.prefix_append _ _).trans first)⟩
      · exact Or.inr ⟨below, Or.inr beside⟩
    · intro either
      rcases either with old | ⟨below, first | beside⟩
      · exact Or.inl (Or.inl (Or.inr old))
      · rcases below.below first with same | deep
        · exact Or.inl (Or.inl (Or.inl same))
        · exact Or.inl (Or.inr ⟨below, deep⟩)
      · exact Or.inr ⟨below, beside⟩
  · intro inner below either outer
    rcases below_cons_iff.mp either with first | beside
    · rcases below.below first with same | deep
      · exact same ▸ outermost outer
      · exact inside inner below deep outer
    · exact clear inner below beside outer

theorem Inserted.covers_nil (inserted : Inserted tree visited wrapper surgery) {path : Path}
    {before : List Name} (contained : tree.Contains path)
    (children : tree.children path = before ++ []) :
    Covers others tree path [] visited (frameAt tree path before.length :: stack) surgery
      stack := by
  rw [List.append_nil] at children
  refine ⟨visited, wrapper, surgery, ⟨1, fun fuel => ?_⟩, inserted, ?_, ?_⟩
  · rw [← children]
    exact inserted.walk_pop contained fuel
  · simp [Below]
  · simp [Below]

theorem Inserted.leads_child (inserted : Inserted tree visited wrapper surgery) {path : Path}
    {before after : List Name} {name : Name} {wrapper' : Path → Nat} {updated : Surgery}
    (contained : tree.Contains (path ++ [name]))
    (children : tree.children path = before ++ name :: after)
    (unvisited : path ++ [name] ∉ visited)
    (updating : updateMlp others (path ++ [name]) (.original (path ++ [name]))
      { surgery with memo := .original (path ++ [name]) :: surgery.memo } = .ok updated)
    (inserted' : Inserted tree ((path ++ [name]) :: visited) wrapper' updated) :
    Leads others (frameAt tree path before.length :: stack) surgery
      (frameAt tree (path ++ [name]) 0 :: frameAt tree path (before.length + 1) :: stack)
      updated := by
  have inPath := ((NamedTree.contains_concat_iff path name).mp contained).1
  have frame : frameAt tree (path ++ [name]) 0 = ⟨.original (path ++ [name]), path ++ [name], 0,
      (updated.heap (.original (path ++ [name]))).entries.length⟩ := by
    rw [frameAt, inserted'.size contained]
  refine ⟨1, fun fuel => ?_⟩
  rw [inserted.walk_next inPath children unvisited, updating, frame]
  rfl

/-- The loop over the children of a module, by induction on the depth below it and on the
children that are left. -/
theorem Inserted.decided (inserted : Inserted tree visited wrapper surgery) {room : Nat}
    {path : Path} {before names : List Name} (contained : tree.Contains path)
    (deep : tree.depth ≤ path.length + room) (children : tree.children path = before ++ names)
    (above : ∀ front, front <+: path → front ∈ visited)
    (ahead : ∀ inner ∈ visited, ¬ Below path names inner) :
    Decided others tree path names visited (frameAt tree path before.length :: stack) surgery
      stack := by
  induction room generalizing path before names stack visited wrapper surgery with
  | zero =>
      have leaf := children.symm.trans (tree.bounded path deep)
      obtain ⟨-, rfl⟩ := List.append_eq_nil_iff.mp leaf
      exact Or.inl (inserted.covers_nil contained children)
  | succ room deeper =>
      induction names generalizing before visited wrapper surgery with
      | nil => exact Or.inl (inserted.covers_nil contained children)
      | cons name names next =>
          have listed : name ∈ tree.children path := by
            rw [children]
            exact List.mem_append_right _ List.mem_cons_self
          have child := (NamedTree.contains_concat_iff path name).mpr ⟨contained, listed⟩
          have unvisited : path ++ [name] ∉ visited := fun member =>
            ahead _ member ⟨name, List.mem_cons_self, List.prefix_refl _⟩
          by_cases nested : ∃ outer, Nested tree outer (path ++ [name])
          · obtain ⟨outer, nested⟩ := nested
            exact Or.inr ⟨⟨outer, _, nested⟩, inserted.spoils children unvisited above nested⟩
          · have outermost := not_exists.mp nested
            obtain ⟨wrapper', updated, updating, inserted'⟩ :=
              inserted.visit others child unvisited outermost
            have leads : Leads others (frameAt tree path before.length :: stack) surgery
                (frameAt tree (path ++ [name]) 0 :: frameAt tree path (before.length + 1) :: stack)
                updated :=
              inserted.leads_child child children unvisited updating inserted'
            have length : (path ++ [name]).length = path.length + 1 := by
              rw [List.length_append, List.length_singleton]
            have above' : ∀ front, front <+: path ++ [name] →
                front ∈ (path ++ [name]) :: visited := by
              intro front first
              rcases List.prefix_concat_iff.mp first with same | inside
              · exact same ▸ List.mem_cons_self
              · exact List.mem_cons_of_mem _ (above front inside)
            rcases deeper inserted' child (by omega) (List.nil_append _).symm above'
              (fun _ member => not_below_child ahead member) with covers | ⟨found, spoils⟩
            · obtain ⟨visited', wrapper'', between, inside, inserted'', visited'Is, clear⟩ := covers
              have whole : tree.children path = (before ++ [name]) ++ names := by
                rw [children, List.append_assoc, List.singleton_append]
              have distinct : name ∉ names := by
                have nodup := tree.nodup path
                rw [children] at nodup
                exact (List.nodup_cons.mp nodup.of_append_right).1
              have later := next inserted'' whole
                (fun front first => (visited'Is front).mpr (Or.inl (List.mem_cons_of_mem _
                  (above front first))))
                (fun inner member => not_below_later ahead distinct ((visited'Is inner).mp member))
              rw [List.length_append, List.length_singleton] at later
              rcases later with covers | ⟨found, spoils⟩
              · exact Or.inl (Covers.trans (leads.trans inside) outermost clear visited'Is child
                  covers)
              · exact Or.inr ⟨found, (leads.trans inside).spoils spoils⟩
            · exact Or.inr ⟨found, leads.spoils spoils⟩

end Walk

section Insertion

variable (others : OtherAttributes) (tree : NamedTree)

theorem inserted_start : Inserted tree [[]] (fun _ => 0) ⟨tree.heap, [.original []], 0⟩ := by
  have root : ∀ path ∈ [([] : Path)], ¬ isMlpLayer path = true := by decide
  refine ⟨rfl, ?_, fun path member mlp => absurd mlp (root path member),
    fun path member mlp => absurd mlp (root path member)⟩
  intro path _
  refine List.map_congr_left fun name _ => ?_
  rw [slotOf, if_neg]
  intro both
  have empty := List.mem_singleton.mp both.2
  exact absurd empty (List.append_ne_nil_of_right_ne_nil _ (List.cons_ne_nil _ _))

variable {tree}

theorem Inserted.exact {visited : List Path} {wrapper : Path → Nat} {surgery : Surgery}
    (inserted : Inserted tree visited wrapper surgery)
    (every : ∀ path, tree.Contains path → path ∈ visited) : Exact tree surgery.heap := by
  intro path contained
  have child : ∀ name ∈ tree.children path, path ++ [name] ∈ visited := fun name listed =>
    every _ ((NamedTree.contains_concat_iff path name).mpr ⟨contained, listed⟩)
  refine ⟨fun name => wrapper (path ++ [name]), ?_, fun name listed mlp =>
    inserted.layers _ (child name listed) mlp⟩
  rw [inserted.slots path contained]
  refine List.map_congr_left fun name listed => ?_
  simp only [slotOf, child name listed, and_true]

variable (tree)

theorem insertion_decided :
    InsertsExactly others tree ∧ (∀ outer inner, ¬ Nested tree outer inner) ∨
      (∃ outer inner, Nested tree outer inner) ∧ ¬ InsertsExactly others tree := by
  have start : ∀ front : Path, front <+: [] → front ∈ [([] : Path)] := fun front first =>
    List.mem_singleton.mpr (List.prefix_nil.mp first)
  have ahead : ∀ inner ∈ [([] : Path)], ¬ Below [] (tree.children []) inner := by
    intro inner member below
    obtain ⟨name, -, first⟩ := below
    rw [List.mem_singleton.mp member, List.nil_append] at first
    exact absurd (List.prefix_nil.mp first) (List.cons_ne_nil _ _)
  have decided : Decided others tree [] (tree.children []) [[]] [frameAt tree [] 0]
      ⟨tree.heap, [.original []], 0⟩ [] :=
    (inserted_start tree).decided tree.contains_nil (Nat.le_add_left _ _)
      (List.nil_append _).symm start ahead
  rcases decided with ⟨visited, wrapper, after, ⟨steps, leads⟩, inserted, covered, clear⟩ | spoiled
  · have every : ∀ path, tree.Contains path → path = [] ∨ Below [] (tree.children []) path :=
      fun path contained => contained.below List.nil_prefix
    refine Or.inl ⟨⟨1 + steps, after, leads 1, inserted.exact fun path contained => ?_⟩, ?_⟩
    · refine (covered path).mpr ?_
      rcases every path contained with root | below
      · exact Or.inl (List.mem_singleton.mpr root)
      · exact Or.inr ⟨contained, below⟩
    · intro outer inner nested
      rcases every inner nested.contained with root | below
      · have mlp := nested.innerMlp
        rw [root] at mlp
        exact absurd mlp (by decide)
      · exact clear inner nested.contained below outer nested
  · refine Or.inr ⟨spoiled.1, fun inserts => ?_⟩
    obtain ⟨fuel, after, ran, correct⟩ := inserts
    exact spoiled.2 fuel after ran correct

/-- The insertion ends without raising and is exact if and only if no module with `mlp` in its
name lies inside another one. -/
theorem inserts_exactly_iff :
    InsertsExactly others tree ↔ ¬ ∃ outer inner, Nested tree outer inner := by
  rcases insertion_decided others tree with ⟨exactly, clear⟩ | ⟨nested, spoiled⟩
  · refine iff_of_true exactly fun found => ?_
    obtain ⟨outer, inner, nested⟩ := found
    exact clear outer inner nested
  · exact iff_of_false spoiled (not_not_intro nested)

end Insertion

section Nesting

def mlpName : Name := mlpWord

def mlpInMlp : NamedTree where
  children path := if path = [] ∨ path = [mlpName] then [mlpName] else []
  nodup path := by
    split
    · exact List.nodup_singleton _
    · exact List.nodup_nil
  depth := 2
  bounded path long := by
    refine if_neg fun short => ?_
    rcases short with rfl | rfl
    · exact absurd long (by decide)
    · exact absurd long (by decide)

theorem mlpInMlp_nested : Nested mlpInMlp [mlpName] [mlpName, mlpName] where
  contained := by
    have root := NamedTree.contains_nil mlpInMlp
    have outer := (NamedTree.contains_concat_iff [] mlpName).mpr ⟨root, List.mem_singleton_self _⟩
    exact (NamedTree.contains_concat_iff [mlpName] mlpName).mpr ⟨outer, List.mem_singleton_self _⟩
  inside := ⟨[mlpName], rfl⟩
  proper := by decide
  outerMlp := by decide
  innerMlp := by decide

/-- The inner module becomes a child of the outer one's adapter, and is not wrapped where it is. -/
theorem mlp_in_mlp_not_exact : ¬ InsertsExactly (fun _ _ => false) mlpInMlp := by
  rcases insertion_decided (fun _ _ => false) mlpInMlp with ⟨-, clear⟩ | ⟨-, spoiled⟩
  · exact absurd mlpInMlp_nested (clear _ _)
  · exact spoiled

end Nesting

end ScalarLM.Training
