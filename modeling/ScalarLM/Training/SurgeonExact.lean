import ScalarLM.Training.Surgeon

/-! When the insertion of adapters is exact. -/

namespace ScalarLM.Training

section Slots

def slotOf (visited : List Path) (wrapper : Path → Nat) (path : Path) (name : Name) : ModuleRef :=
  if isMlpLayer (path ++ [name]) = true ∧ path ++ [name] ∈ visited then
    .adapter (wrapper (path ++ [name]))
  else .original (path ++ [name])

variable {tree : NamedTree} {visited : List Path} {wrapper : Path → Nat}

def Slots (tree : NamedTree) (visited : List Path) (wrapper : Path → Nat) (heap : ModuleHeap) :
    Prop :=
  ∀ path, tree.Contains path → (heap (.original path)).entries =
    (tree.children path).map fun name => (name, slotOf visited wrapper path name)

def Layers (visited : List Path) (wrapper : Path → Nat) (heap : ModuleHeap) : Prop :=
  ∀ path ∈ visited, isMlpLayer path = true →
    (heap (.adapter (wrapper path))).entries = [(layerName, .original path)]

/-- The modules that were visited are wrapped at their places, and nothing else has changed. -/
structure Inserted (tree : NamedTree) (visited : List Path) (wrapper : Path → Nat)
    (surgery : Surgery) : Prop where
  memo : surgery.memo = visited.map .original
  slots : Slots tree visited wrapper surgery.heap
  layers : Layers visited wrapper surgery.heap
  fresh : ∀ path ∈ visited, isMlpLayer path = true → wrapper path < surgery.adapters

theorem get?_of_entries {dict : Dict Name ModuleRef} {names : List Name} {value : Name → ModuleRef}
    (entries : dict.entries = names.map fun name => (name, value name)) (name : Name) :
    dict.get? name = if name ∈ names then some (value name) else none := by
  split
  · rename_i listed
    rw [Dict.get?_eq_some_iff, Dict.mem_def, entries]
    exact List.mem_map.mpr ⟨name, listed, rfl⟩
  · rename_i absent
    rw [Dict.get?_eq_none_iff_not_mem_keys, Dict.keys, entries, List.map_map]
    intro listed
    obtain ⟨other, member, same⟩ := List.mem_map.mp listed
    exact absent (same ▸ member)

theorem entries_set {dict : Dict Name ModuleRef} {names : List Name} {value : Name → ModuleRef}
    (entries : dict.entries = names.map fun name => (name, value name)) {name : Name}
    (listed : name ∈ names) (new : ModuleRef) :
    (dict.set name new).entries =
      names.map fun other => (other, if other = name then new else value other) := by
  have present : name ∈ dict.entries.map Prod.fst := by
    rw [entries, List.map_map]
    exact List.mem_map.mpr ⟨name, listed, rfl⟩
  have replaced : (dict.set name new).entries =
      dict.entries.map fun entry => if entry.1 = name then (name, new) else entry := by
    rw [Dict.set, dif_pos present]
  rw [replaced, entries, List.map_map]
  refine List.map_congr_left fun other _ => ?_
  rw [Function.comp_apply]
  split
  · rename_i same
    rw [show other = name from same]
  · rfl

theorem NamedTree.contains_nil (tree : NamedTree) : tree.Contains [] := by
  intro front name first
  have empty := List.prefix_nil.mp first
  exact absurd empty (List.append_ne_nil_of_right_ne_nil _ (List.cons_ne_nil _ _))

theorem NamedTree.Contains.of_prefix {path front : Path} (contained : tree.Contains path)
    (first : front <+: path) : tree.Contains front :=
  fun earlier name before => contained earlier name (before.trans first)

theorem NamedTree.contains_concat_iff (path : Path) (name : Name) :
    tree.Contains (path ++ [name]) ↔ tree.Contains path ∧ name ∈ tree.children path := by
  constructor
  · intro contained
    exact ⟨contained.of_prefix (List.prefix_append _ _), contained path name (List.prefix_refl _)⟩
  · intro given front other first
    rcases List.prefix_concat_iff.mp first with same | before
    · obtain ⟨rfl, equal⟩ := List.append_inj' same rfl
      rw [(List.cons.inj equal).1]
      exact given.2
    · exact given.1 front other before

theorem Slots.get? {heap : ModuleHeap} (slots : Slots tree visited wrapper heap) {path : Path}
    (contained : tree.Contains path) (name : Name) :
    (heap (.original path)).get? name =
      if name ∈ tree.children path then some (slotOf visited wrapper path name) else none :=
  get?_of_entries (slots path contained) name

end Slots

section Setting

variable {tree : NamedTree} {visited : List Path} {wrapper : Path → Nat} {heap : ModuleHeap}
  (others : OtherAttributes)

theorem setModule_self (obj : ModuleRef) (name : Name) (value : ModuleRef) :
    setModule heap obj name value obj = (heap obj).set name value :=
  Function.update_self _ _ _

theorem setModule_of_ne {obj other : ModuleRef} (differs : other ≠ obj) (name : Name)
    (value : ModuleRef) : setModule heap obj name value other = heap other :=
  Function.update_of_ne differs _ _

theorem setModule_adapter (path : Path) (name : Name) (value : ModuleRef) (number : Nat) :
    setModule heap (.original path) name value (.adapter number) = heap (.adapter number) :=
  setModule_of_ne ModuleRef.noConfusion name value

theorem setModule_get? (obj other : ModuleRef) (name read : Name) (value : ModuleRef) :
    (setModule heap obj name value other).get? read =
      if other = obj ∧ read = name then some value else (heap other).get? read := by
  by_cases same : other = obj
  · rw [same, setModule_self, Dict.get?_set]
    simp
  · rw [setModule_of_ne same, if_neg fun both => same both.1]

theorem recursiveSetattr_plain (slots : Slots tree visited wrapper heap) (value : ModuleRef)
    (front rest : Path) (last : Name) (contained : tree.Contains (front ++ (rest ++ [last])))
    (plain : ∀ path, path <+: front ++ rest → isMlpLayer path = false) :
    recursiveSetattr others heap value (.original front) (rest ++ [last]) =
      .ok (setModule heap (.original (front ++ rest)) last value) := by
  induction rest generalizing front with
  | nil => rw [List.append_nil, List.nil_append, recursiveSetattr]
  | cons name rest ih =>
      have whole : front ++ (name :: rest) = front ++ [name] ++ rest := by simp
      have here : tree.Contains (front ++ [name]) := by
        refine contained.of_prefix ⟨rest ++ [last], ?_⟩
        simp
      obtain ⟨inFront, listed⟩ := (NamedTree.contains_concat_iff front name).mp here
      have child : (heap (.original front)).get? name = some (.original (front ++ [name])) := by
        have notMlp := plain (front ++ [name]) (by rw [whole]; exact List.prefix_append _ _)
        rw [slots.get? inFront, if_pos listed, slotOf, if_neg]
        exact fun both => absurd both.1 (by rw [notMlp]; exact Bool.false_ne_true)
      obtain ⟨next, more, split⟩ : ∃ next more, rest ++ [last] = next :: more :=
        List.exists_cons_of_ne_nil (List.append_ne_nil_of_right_ne_nil _ (List.cons_ne_nil _ _))
      have later := ih (front ++ [name]) (by simpa using contained) (by rw [← whole]; exact plain)
      rw [List.cons_append, split, recursiveSetattr, child, ← split, whole]
      exact later

end Setting

section Visit

variable {tree : NamedTree} {visited : List Path} {wrapper : Path → Nat} {surgery : Surgery}
  (others : OtherAttributes)

def withAdapter (surgery : Surgery) (layer : ModuleRef) : ModuleHeap :=
  Function.update surgery.heap (.adapter surgery.adapters) (Dict.empty.set layerName layer)

theorem withAdapter_original (layer : ModuleRef) (path : Path) :
    withAdapter surgery layer (.original path) = surgery.heap (.original path) :=
  Function.update_of_ne ModuleRef.noConfusion _ _

theorem withAdapter_new (layer : ModuleRef) :
    (withAdapter surgery layer (.adapter surgery.adapters)).entries = [(layerName, layer)] := by
  rw [withAdapter, Function.update_self]
  rfl

theorem withAdapter_old (layer : ModuleRef) {number : Nat} (old : number ≠ surgery.adapters) :
    withAdapter surgery layer (.adapter number) = surgery.heap (.adapter number) := by
  rw [withAdapter, Function.update_of_ne]
  exact fun same => old (ModuleRef.adapter.inj same)

theorem Inserted.slots_withAdapter (inserted : Inserted tree visited wrapper surgery)
    (layer : ModuleRef) : Slots tree visited wrapper (withAdapter surgery layer) := by
  intro path contained
  rw [withAdapter_original]
  exact inserted.slots path contained

theorem Inserted.layers_withAdapter (inserted : Inserted tree visited wrapper surgery)
    (layer : ModuleRef) : Layers visited wrapper (withAdapter surgery layer) := by
  intro path member mlp
  rw [withAdapter_old layer (Nat.ne_of_lt (inserted.fresh path member mlp))]
  exact inserted.layers path member mlp

theorem slotOf_cons_of_ne {path child : Path} {name : Name} (differs : path ++ [name] ≠ child)
    (number : Nat) : slotOf (child :: visited) (Function.update wrapper child number) path name =
      slotOf visited wrapper path name := by
  rw [slotOf, slotOf, Function.update_of_ne differs]
  simp only [List.mem_cons, differs, false_or]

theorem slotOf_cons_plain {child : Path} (plain : isMlpLayer child = false) (path : Path)
    (name : Name) : slotOf (child :: visited) wrapper path name =
      slotOf visited wrapper path name := by
  by_cases same : path ++ [name] = child
  · rw [slotOf, slotOf, same, plain]
    simp
  · rw [slotOf, slotOf]
    simp only [List.mem_cons, same, false_or]

theorem Inserted.skip (inserted : Inserted tree visited wrapper surgery) {child : Path}
    (plain : isMlpLayer child = false) : Inserted tree (child :: visited) wrapper
      { surgery with memo := .original child :: surgery.memo } := by
  have older : ∀ path ∈ child :: visited, isMlpLayer path = true → path ∈ visited := by
    intro path member mlp
    rcases List.mem_cons.mp member with rfl | member
    · rw [plain] at mlp
      exact absurd mlp Bool.false_ne_true
    · exact member
  refine ⟨?_, ?_, ?_, ?_⟩
  · rw [List.map_cons, ← inserted.memo]
  · intro path contained
    simp only [slotOf_cons_plain plain]
    exact inserted.slots path contained
  · exact fun path member mlp => inserted.layers path (older path member mlp) mlp
  · exact fun path member mlp => inserted.fresh path (older path member mlp) mlp

theorem Inserted.wrap (inserted : Inserted tree visited wrapper surgery) {path : Path}
    {name : Name} (contained : tree.Contains (path ++ [name]))
    (mlp : isMlpLayer (path ++ [name]) = true) (unvisited : path ++ [name] ∉ visited) :
    Inserted tree ((path ++ [name]) :: visited)
      (Function.update wrapper (path ++ [name]) surgery.adapters)
      ⟨setModule (withAdapter surgery (.original (path ++ [name]))) (.original path) name
        (.adapter surgery.adapters), .original (path ++ [name]) :: surgery.memo,
        surgery.adapters + 1⟩ := by
  set child := path ++ [name] with childIs
  have inPath := (NamedTree.contains_concat_iff path name).mp contained
  have apart : ∀ other ∈ visited, other ≠ child := fun other member same =>
    unvisited (same ▸ member)
  refine ⟨?_, ?_, ?_, ?_⟩
  · rw [List.map_cons, ← inserted.memo]
  · intro front inFront
    dsimp only
    by_cases same : front = path
    · rw [same, setModule_self, entries_set (inserted.slots_withAdapter _ path inPath.1) inPath.2]
      refine List.map_congr_left fun other _ => ?_
      by_cases hit : other = name
      · rw [if_pos hit, hit, slotOf, if_pos ⟨mlp, List.mem_cons_self⟩, ← childIs,
          Function.update_self]
      · rw [if_neg hit, slotOf_cons_of_ne]
        exact fun equal => hit (List.cons.inj (List.append_cancel_left equal)).1
    · rw [setModule_of_ne (fun equal => same (ModuleRef.original.inj equal)),
        inserted.slots_withAdapter _ front inFront]
      refine List.map_congr_left fun other _ => ?_
      rw [slotOf_cons_of_ne]
      exact fun equal => same (List.append_inj' equal rfl).1
  · intro other member otherMlp
    dsimp only
    rw [setModule_adapter]
    rcases List.mem_cons.mp member with rfl | member
    · rw [Function.update_self, withAdapter_new]
    · rw [Function.update_of_ne (apart other member)]
      exact inserted.layers_withAdapter _ other member otherMlp
  · intro other member otherMlp
    rcases List.mem_cons.mp member with rfl | member
    · rw [Function.update_self]
      exact Nat.lt_succ_self _
    · rw [Function.update_of_ne (apart other member)]
      exact Nat.lt_succ_of_lt (inserted.fresh other member otherMlp)

theorem Inserted.visit (inserted : Inserted tree visited wrapper surgery) {path : Path}
    {name : Name} (contained : tree.Contains (path ++ [name]))
    (unvisited : path ++ [name] ∉ visited)
    (outermost : ∀ outer, ¬ Nested tree outer (path ++ [name])) :
    ∃ wrapper' updated, updateMlp others (path ++ [name]) (.original (path ++ [name]))
        { surgery with memo := .original (path ++ [name]) :: surgery.memo } = .ok updated ∧
      Inserted tree ((path ++ [name]) :: visited) wrapper' updated := by
  by_cases mlp : isMlpLayer (path ++ [name]) = true
  · have plain : ∀ front, front <+: [] ++ path → isMlpLayer front = false := by
      intro front first
      rw [List.nil_append] at first
      refine Bool.eq_false_iff.mpr fun outer => outermost front
        ⟨contained, first.trans (List.prefix_append _ _), ?_, outer, mlp⟩
      intro same
      have shorter := first.length_le
      rw [same, List.length_append, List.length_singleton] at shorter
      omega
    have placed := recursiveSetattr_plain others
      (inserted.slots_withAdapter (.original (path ++ [name]))) (.adapter surgery.adapters)
      [] path name contained plain
    refine ⟨_, _, ?_, inserted.wrap contained mlp unvisited⟩
    rw [updateMlp, if_pos mlp]
    change (recursiveSetattr others (withAdapter surgery _) _ _ _ >>= _) = _
    rw [placed]
    rfl
  · refine ⟨wrapper, _, ?_, inserted.skip (Bool.eq_false_iff.mpr mlp)⟩
    rw [updateMlp, if_neg mlp]
    rfl

end Visit

section Astray

variable {tree : NamedTree} {visited : List Path} {wrapper : Path → Nat} {heap : ModuleHeap}
  {others : OtherAttributes}

def Short (tree : NamedTree) (visited : List Path) (wrapper : Path → Nat) (limit length : Nat) :
    ModuleRef → Prop
  | .original path => tree.Contains path ∧ path.length + length < limit
  | .adapter number => ∃ path ∈ visited, isMlpLayer path = true ∧ tree.Contains path ∧
      wrapper path = number ∧ path.length + length ≤ limit

theorem Short.child {limit length : Nat} {obj child : ModuleRef} {name : Name}
    (short : Short tree visited wrapper limit (length + 1) obj)
    (slots : Slots tree visited wrapper heap) (layers : Layers visited wrapper heap)
    (found : (heap obj).get? name = some child) :
    Short tree visited wrapper limit length child := by
  cases obj with
  | original path =>
      obtain ⟨contained, within⟩ := short
      rw [slots.get? contained] at found
      split at found
      · rename_i listed
        have below := (NamedTree.contains_concat_iff path name).mpr ⟨contained, listed⟩
        have longer : (path ++ [name]).length = path.length + 1 := by
          rw [List.length_append, List.length_singleton]
        rw [← Option.some.inj found, slotOf]
        split
        · rename_i wrapped
          exact ⟨_, wrapped.2, wrapped.1, below, rfl, by omega⟩
        · exact ⟨below, by omega⟩
      · exact absurd found (Option.some_ne_none _).symm
  | adapter number =>
      obtain ⟨path, member, mlp, contained, rfl, within⟩ := short
      rw [Dict.get?_eq_some_iff, Dict.mem_def, layers path member mlp, List.mem_singleton] at found
      rw [(Prod.mk.inj found).2]
      exact ⟨contained, by omega⟩

theorem recursiveSetattr_short (slots : Slots tree visited wrapper heap)
    (layers : Layers visited wrapper heap) (parent : Path) {value obj : ModuleRef} {path : Path}
    (short : Short tree visited wrapper (parent.length + 1) path.length obj) {after : ModuleHeap}
    (ran : recursiveSetattr others heap value obj path = .ok after) :
    after (.original parent) = heap (.original parent) := by
  induction path generalizing obj with
  | nil => exact absurd ran (by simp [recursiveSetattr])
  | cons name rest ih =>
      cases rest with
      | nil =>
          rw [recursiveSetattr, Except.ok.injEq] at ran
          rw [← ran, setModule_of_ne]
          intro same
          have within := same ▸ short
          exact absurd within.2 (by simp)
      | cons next rest =>
          rw [recursiveSetattr] at ran
          split at ran
          · rename_i child found
            exact ih (short.child slots layers found) ran
          · split at ran
            · rw [Except.ok.inj ran]
            · exact absurd ran (by simp)

theorem recursiveSetattr_nested (slots : Slots tree visited wrapper heap)
    (layers : Layers visited wrapper heap) {parent front rest outer : Path} {name : Name}
    (whole : front ++ rest = parent ++ [name]) (contained : tree.Contains (parent ++ [name]))
    (seen : outer ∈ visited) (mlp : isMlpLayer outer = true) (inside : outer <+: parent ++ [name])
    (below : front.length < outer.length) (proper : outer.length < parent.length + 1)
    {value : ModuleRef} {after : ModuleHeap}
    (ran : recursiveSetattr others heap value (.original front) rest = .ok after) :
    after (.original parent) = heap (.original parent) := by
  have length : front.length + rest.length = parent.length + 1 := by
    rw [← List.length_append, whole, List.length_append, List.length_singleton]
  induction rest generalizing front with
  | nil =>
      rw [List.length_nil] at length
      omega
  | cons first rest ih =>
      have longer : (front ++ [first]).length = front.length + 1 := by
        rw [List.length_append, List.length_singleton]
      have before : front ++ [first] <+: parent ++ [name] := by
        rw [← whole]
        exact ⟨rest, by simp⟩
      have here := (NamedTree.contains_concat_iff front first).mp (contained.of_prefix before)
      have found := slots.get? here.1 first
      rw [if_pos here.2, slotOf] at found
      rw [List.length_cons] at length
      obtain ⟨next, more, rfl⟩ : ∃ next more, rest = next :: more :=
        List.exists_cons_of_ne_nil (List.ne_nil_of_length_pos (by omega))
      rw [recursiveSetattr, found] at ran
      by_cases wrapped : isMlpLayer (front ++ [first]) = true ∧ front ++ [first] ∈ visited
      · simp only [if_pos wrapped] at ran
        refine recursiveSetattr_short slots layers parent ?_ ran
        exact ⟨_, wrapped.2, wrapped.1, contained.of_prefix before, rfl, by omega⟩
      · simp only [if_neg wrapped] at ran
        have differs : front ++ [first] ≠ outer := by
          intro same
          rw [same] at wrapped
          exact wrapped ⟨mlp, seen⟩
        have further : (front ++ [first]).length < outer.length := by
          refine Nat.lt_of_le_of_ne (by omega) fun same => differs ?_
          exact List.IsPrefix.eq_of_length
            (List.prefix_of_prefix_length_le before inside same.le) same
        exact ih (by rw [← whole]; simp) further ran (by omega)

end Astray

section Misplacement

variable {tree : NamedTree} {surgery updated : Surgery} {others : OtherAttributes}
  {parent : Path} {name : Name}

structure Misplaced (parent : Path) (name : Name) (surgery : Surgery) : Prop where
  seen : .original (parent ++ [name]) ∈ surgery.memo
  apart : ∀ number, (surgery.heap (.original parent)).get? name = some (.adapter number) →
    (surgery.heap (.adapter number)).get? layerName ≠ some (.original (parent ++ [name]))

theorem recursiveSetattr_target {heap after : ModuleHeap} {value obj : ModuleRef} {path : Path}
    (ran : recursiveSetattr others heap value obj path = .ok after) :
    after = heap ∨ ∃ target last, path.getLast? = some last ∧
      after = setModule heap target last value := by
  induction path generalizing obj with
  | nil => exact absurd ran (by simp [recursiveSetattr])
  | cons name rest ih =>
      cases rest with
      | nil =>
          rw [recursiveSetattr, Except.ok.injEq] at ran
          exact Or.inr ⟨obj, name, rfl, ran.symm⟩
      | cons next rest =>
          rw [recursiveSetattr] at ran
          split at ran
          · rw [List.getLast?_cons_cons]
            exact ih ran
          · split at ran
            · exact Or.inl (Except.ok.inj ran).symm
            · exact absurd ran (by simp)

theorem layerName_not_mlp : ¬ mlpWord <:+: layerName := by decide

theorem updateMlp_cases {path : Path} {layer : ModuleRef}
    (ran : updateMlp others path layer surgery = .ok updated) :
    updated.memo = surgery.memo ∧ (updated.heap = surgery.heap ∨
      updated.heap = withAdapter surgery layer ∨
      ∃ target last, last ≠ layerName ∧ updated.heap =
        setModule (withAdapter surgery layer) target last (.adapter surgery.adapters)) := by
  by_cases mlp : isMlpLayer path = true
  · rw [updateMlp, if_pos mlp] at ran
    change (recursiveSetattr others (withAdapter surgery layer) _ _ _ >>= _) = _ at ran
    cases result : recursiveSetattr others (withAdapter surgery layer)
        (.adapter surgery.adapters) (.original []) path with
    | error stop =>
        rw [result] at ran
        exact absurd ran (by simp [bind, Except.bind])
    | ok heap =>
        rw [result] at ran
        obtain rfl := Except.ok.inj ran
        refine ⟨rfl, Or.inr ?_⟩
        rcases recursiveSetattr_target result with same | ⟨target, last, ending, set⟩
        · exact Or.inl same
        · refine Or.inr ⟨target, last, ?_, set⟩
          intro same
          rw [isMlpLayer, ending, same] at mlp
          exact layerName_not_mlp (of_decide_eq_true mlp)
  · rw [updateMlp, if_neg mlp] at ran
    obtain rfl := Except.ok.inj ran
    exact ⟨rfl, Or.inl rfl⟩

theorem withAdapter_layer (layer : ModuleRef) (number : Nat) :
    (withAdapter surgery layer (.adapter number)).get? layerName =
      if number = surgery.adapters then some layer
      else (surgery.heap (.adapter number)).get? layerName := by
  split
  · rename_i new
    rw [new, Dict.get?_eq_some_iff, Dict.mem_def, withAdapter_new]
    exact List.mem_singleton_self _
  · rename_i old
    rw [withAdapter_old layer old]

theorem Misplaced.of_heap (misplaced : Misplaced parent name surgery) {layer : ModuleRef}
    (other : layer ≠ .original (parent ++ [name])) {after : Surgery}
    (seen : .original (parent ++ [name]) ∈ after.memo)
    (layers : ∀ number, (after.heap (.adapter number)).get? layerName =
      (withAdapter surgery layer (.adapter number)).get? layerName)
    (slot : ∀ number, (after.heap (.original parent)).get? name = some (.adapter number) →
      number = surgery.adapters ∨
        (surgery.heap (.original parent)).get? name = some (.adapter number)) :
    Misplaced parent name after := by
  refine ⟨seen, fun number found => ?_⟩
  rw [layers, withAdapter_layer]
  split
  · exact fun same => other (Option.some.inj same)
  · rename_i old
    exact misplaced.apart number ((slot number found).resolve_left old)

/-- No later update of another module brings it to its place. -/
theorem Misplaced.update (misplaced : Misplaced parent name surgery) {path : Path}
    {layer : ModuleRef} (other : layer ≠ .original (parent ++ [name]))
    (ran : updateMlp others path layer surgery = .ok updated) :
    Misplaced parent name updated := by
  obtain ⟨memo, same | built | ⟨target, last, differs, set⟩⟩ := updateMlp_cases ran
  · exact ⟨memo ▸ misplaced.seen, same ▸ misplaced.apart⟩
  · refine misplaced.of_heap other (memo ▸ misplaced.seen) (fun number => by rw [built]) ?_
    intro number found
    rw [built, withAdapter_original] at found
    exact Or.inr found
  · refine misplaced.of_heap other (memo ▸ misplaced.seen) (fun number => ?_) ?_
    · rw [set, setModule_get?, if_neg fun both => differs both.2.symm]
    · intro number found
      rw [set, setModule_get?] at found
      split at found
      · exact Or.inl (ModuleRef.adapter.inj (Option.some.inj found)).symm
      · rw [withAdapter_original] at found
        exact Or.inr found

theorem Misplaced.walk {fuel : Nat} {stack : List WalkFrame} {after : Surgery}
    (misplaced : Misplaced parent name surgery)
    (ran : walkModules others fuel stack surgery = .ok after) : Misplaced parent name after := by
  induction fuel generalizing stack surgery with
  | zero => exact absurd ran (by simp [walkModules])
  | succ fuel ih =>
      cases stack with
      | nil =>
          rw [walkModules] at ran
          exact Except.ok.inj ran ▸ misplaced
      | cons frame stack =>
          simp only [walkModules] at ran
          split at ran
          · exact absurd ran (by simp)
          · split at ran
            · exact ih misplaced ran
            · split at ran
              · exact ih misplaced ran
              · rename_i child _ unseen
                split at ran
                · exact absurd ran (by simp)
                · rename_i updated result
                  have marked : Misplaced parent name
                      { surgery with memo := child :: surgery.memo } :=
                    ⟨List.mem_cons_of_mem _ misplaced.seen, misplaced.apart⟩
                  refine ih (marked.update ?_ result) ran
                  exact fun same => unseen (same ▸ misplaced.seen)

theorem Misplaced.not_exact (misplaced : Misplaced parent name surgery)
    (contained : tree.Contains (parent ++ [name])) (mlp : isMlpLayer (parent ++ [name]) = true) :
    ¬ Exact tree surgery.heap := by
  intro exact'
  obtain ⟨inParent, listed⟩ := (NamedTree.contains_concat_iff parent name).mp contained
  obtain ⟨wrapper, slots, layers⟩ := exact' parent inParent
  have found := get?_of_entries slots name
  rw [if_pos listed, if_pos mlp] at found
  refine misplaced.apart _ found ?_
  rw [Dict.get?_eq_some_iff, Dict.mem_def, layers name listed mlp]
  exact List.mem_singleton_self _

theorem Inserted.misplace {visited : List Path} {wrapper : Path → Nat}
    (inserted : Inserted tree visited wrapper surgery) {outer : Path}
    (nested : Nested tree outer (parent ++ [name])) (seen : outer ∈ visited)
    (unvisited : parent ++ [name] ∉ visited)
    (ran : updateMlp others (parent ++ [name]) (.original (parent ++ [name]))
      { surgery with memo := .original (parent ++ [name]) :: surgery.memo } = .ok updated) :
    Misplaced parent name updated := by
  have memo := (updateMlp_cases ran).1
  have inParent := (NamedTree.contains_concat_iff parent name).mp nested.contained
  have kept : updated.heap (.original parent) = surgery.heap (.original parent) := by
    rw [updateMlp, if_pos nested.innerMlp] at ran
    change (recursiveSetattr others (withAdapter surgery _) _ _ _ >>= _) = _ at ran
    cases result : recursiveSetattr others (withAdapter surgery
        (.original (parent ++ [name]))) (.adapter surgery.adapters) (.original [])
        (parent ++ [name]) with
    | error stop =>
        rw [result] at ran
        exact absurd ran (by simp [bind, Except.bind])
    | ok heap =>
        rw [result] at ran
        obtain rfl := Except.ok.inj ran
        have shorter : outer.length ≠ (parent ++ [name]).length := fun same =>
          nested.proper (nested.inside.eq_of_length same)
        have within := nested.inside.length_le
        rw [List.length_append, List.length_singleton] at shorter within
        have nonempty : outer ≠ [] := by
          intro empty
          have wrapped := nested.outerMlp
          rw [empty] at wrapped
          exact absurd wrapped (by decide)
        have before : withAdapter surgery (.original (parent ++ [name])) (.original parent) =
            surgery.heap (.original parent) := withAdapter_original _ parent
        rw [← before]
        have whole : [] ++ (parent ++ [name]) = parent ++ [name] := List.nil_append _
        exact recursiveSetattr_nested (inserted.slots_withAdapter _)
          (inserted.layers_withAdapter _) whole nested.contained seen nested.outerMlp
          nested.inside (List.length_pos_iff.mpr nonempty) (by omega) result
  refine ⟨memo ▸ List.mem_cons_self, fun number found => ?_⟩
  rw [kept, inserted.slots.get? inParent.1, if_pos inParent.2, slotOf,
    if_neg fun both => unvisited both.2] at found
  exact absurd (Option.some.inj found) ModuleRef.noConfusion

end Misplacement

end ScalarLM.Training
