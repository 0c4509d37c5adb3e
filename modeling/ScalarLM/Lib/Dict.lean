import Mathlib.Data.List.Induction
import Mathlib.Data.List.Nodup
import Mathlib.Tactic.Common

/-! Insertion-ordered dictionaries. Assigning to a present key keeps its place,
a new key goes to the end. -/

namespace ScalarLM

instance decidableListed (name : List Char) (names : List (List Char)) :
    Decidable (name ∈ names) :=
  List.instDecidableMemOfLawfulBEq name names

/-- Entries in insertion order, with no key twice. -/
structure Dict (κ ν : Type) where
  entries : List (κ × ν)
  nodup : (entries.map Prod.fst).Nodup

namespace Dict

variable {κ ν : Type}

def empty : Dict κ ν := ⟨[], List.nodup_nil⟩

def keys (dict : Dict κ ν) : List κ := dict.entries.map Prod.fst

instance : Membership (κ × ν) (Dict κ ν) := ⟨fun dict entry => entry ∈ dict.entries⟩

theorem mem_def (dict : Dict κ ν) (entry : κ × ν) : entry ∈ dict ↔ entry ∈ dict.entries :=
  Iff.rfl

@[simp] theorem not_mem_empty (entry : κ × ν) : ¬ entry ∈ (empty : Dict κ ν) :=
  List.not_mem_nil

theorem eq_of_entries {first second : Dict κ ν} (same : first.entries = second.entries) :
    first = second := by
  obtain ⟨entries, nodup⟩ := first
  obtain ⟨others, _⟩ := second
  cases same
  rfl

theorem value_unique (dict : Dict κ ν) (key : κ) (left right : ν)
    (hl : (key, left) ∈ dict) (hr : (key, right) ∈ dict) : left = right := by
  have same := List.inj_on_of_nodup_map dict.nodup hl hr rfl
  exact congrArg Prod.snd same

theorem entries_nodup (dict : Dict κ ν) : dict.entries.Nodup := dict.nodup.of_map Prod.fst

theorem mem_keys (dict : Dict κ ν) (key : κ) : key ∈ dict.keys ↔ ∃ value, (key, value) ∈ dict := by
  simp [keys, mem_def]

def mapValues {μ : Type} (f : ν → μ) (dict : Dict κ ν) : Dict κ μ where
  entries := dict.entries.map fun entry => (entry.1, f entry.2)
  nodup := by
    rw [List.map_map]
    exact dict.nodup

theorem mem_mapValues {μ : Type} (f : ν → μ) (dict : Dict κ ν) (key : κ) (value : μ) :
    (key, value) ∈ dict.mapValues f ↔ ∃ source, (key, source) ∈ dict ∧ f source = value := by
  simp only [mem_def, mapValues, List.mem_map, Prod.mk.injEq]
  constructor
  · intro given
    rcases given with ⟨⟨name, source⟩, member, rfl, image⟩
    exact ⟨source, member, image⟩
  · intro given
    rcases given with ⟨source, member, image⟩
    exact ⟨(key, source), member, rfl, image⟩

theorem keys_mapValues {μ : Type} (f : ν → μ) (dict : Dict κ ν) :
    (dict.mapValues f).keys = dict.keys := by
  rw [mapValues, keys, keys, List.map_map]
  rfl

variable [DecidableEq κ]

def get? (dict : Dict κ ν) (key : κ) : Option ν :=
  (dict.entries.find? fun entry => entry.1 = key).map Prod.snd

def set (dict : Dict κ ν) (key : κ) (value : ν) : Dict κ ν :=
  if present : key ∈ dict.entries.map Prod.fst then
    ⟨dict.entries.map fun entry => if entry.1 = key then (key, value) else entry, by
      have same : (dict.entries.map fun entry => if entry.1 = key then (key, value) else entry).map
          Prod.fst = dict.entries.map Prod.fst := by
        rw [List.map_map]
        apply List.map_congr_left
        intro entry _
        by_cases hit : entry.1 = key <;> simp [hit]
      rw [same]
      exact dict.nodup⟩
  else
    ⟨dict.entries ++ [(key, value)], by
      rw [List.map_append]
      exact List.Nodup.append dict.nodup (List.nodup_singleton key) (by simpa using present)⟩

def erase (dict : Dict κ ν) (key : κ) : Dict κ ν :=
  ⟨dict.entries.filter fun entry => entry.1 ≠ key,
    dict.nodup.sublist (List.filter_sublist.map Prod.fst)⟩

def ofAssignments (assignments : List (κ × ν)) : Dict κ ν :=
  assignments.foldl (fun dict entry => dict.set entry.1 entry.2) empty

theorem get?_eq_some_iff (dict : Dict κ ν) (key : κ) (value : ν) :
    dict.get? key = some value ↔ (key, value) ∈ dict := by
  constructor
  · intro found
    obtain ⟨entry, hit, rfl⟩ := Option.map_eq_some_iff.mp found
    have same : entry.1 = key := by simpa using List.find?_some hit
    rw [← same]
    exact List.mem_of_find?_eq_some hit
  · intro member
    have some : (dict.entries.find? fun entry => entry.1 = key).isSome := by
      rw [List.find?_isSome]
      exact ⟨(key, value), member, by simp⟩
    obtain ⟨entry, hit⟩ := Option.isSome_iff_exists.mp some
    have same : entry.1 = key := by simpa using List.find?_some hit
    have value' : (key, entry.2) ∈ dict := by
      rw [← same]
      exact List.mem_of_find?_eq_some hit
    rw [get?, hit, Option.map_some, value_unique dict key _ _ value' member]

theorem get?_eq_none_iff (dict : Dict κ ν) (key : κ) :
    dict.get? key = none ↔ ∀ value, (key, value) ∉ dict := by
  rw [Option.eq_none_iff_forall_ne_some]
  simp only [ne_eq, get?_eq_some_iff]

theorem get?_eq_none_iff_not_mem_keys (dict : Dict κ ν) (key : κ) :
    dict.get? key = none ↔ key ∉ dict.keys := by
  rw [get?_eq_none_iff, mem_keys, not_exists]

theorem mem_set (dict : Dict κ ν) (key other : κ) (value content : ν) :
    (other, content) ∈ dict.set key value ↔
      (other = key ∧ content = value) ∨ (other ≠ key ∧ (other, content) ∈ dict) := by
  unfold set
  split
  · rename_i present
    simp only [mem_def, List.mem_map]
    constructor
    · intro given
      rcases given with ⟨entry, member, image⟩
      by_cases hit : entry.1 = key
      · rw [if_pos hit] at image
        cases image
        exact Or.inl ⟨rfl, rfl⟩
      · rw [if_neg hit] at image
        subst image
        exact Or.inr ⟨hit, member⟩
    · intro either
      rcases either with ⟨rfl, rfl⟩ | ⟨differs, member⟩
      · obtain ⟨entry, member, hit⟩ := List.mem_map.mp present
        exact ⟨entry, member, if_pos hit⟩
      · exact ⟨(other, content), member, if_neg differs⟩
  · rename_i absent
    simp only [mem_def, List.mem_append, List.mem_singleton, Prod.mk.injEq]
    constructor
    · intro either
      rcases either with member | same
      · refine Or.inr ⟨?_, member⟩
        intro same
        cases same
        exact absent (List.mem_map.mpr ⟨_, member, rfl⟩)
      · exact Or.inl same
    · intro either
      rcases either with same | ⟨_, member⟩
      · exact Or.inr same
      · exact Or.inl member

theorem mem_erase (dict : Dict κ ν) (key other : κ) (content : ν) :
    (other, content) ∈ dict.erase key ↔ other ≠ key ∧ (other, content) ∈ dict := by
  simp [erase, mem_def, and_comm]

theorem get?_erase (dict : Dict κ ν) (key other : κ) :
    (dict.erase key).get? other = if other = key then none else dict.get? other := by
  apply Option.ext
  intro content
  rw [get?_eq_some_iff, mem_erase]
  by_cases hit : other = key
  · simp [hit]
  · simp [hit, get?_eq_some_iff]

theorem get?_mapValues {μ : Type} (f : ν → μ) (dict : Dict κ ν) (key : κ) :
    (dict.mapValues f).get? key = (dict.get? key).map f := by
  apply Option.ext
  intro content
  rw [get?_eq_some_iff, mem_mapValues, Option.map_eq_some_iff]
  refine exists_congr fun source => ?_
  rw [get?_eq_some_iff]

theorem get?_set (dict : Dict κ ν) (key other : κ) (value : ν) :
    (dict.set key value).get? other = if other = key then some value else dict.get? other := by
  apply Option.ext
  intro content
  rw [get?_eq_some_iff, mem_set]
  by_cases hit : other = key
  · simp [hit, eq_comm]
  · simp [hit, get?_eq_some_iff]

theorem mem_keys_set (dict : Dict κ ν) (key other : κ) (value : ν) :
    other ∈ (dict.set key value).keys ↔ other = key ∨ other ∈ dict.keys := by
  simp only [mem_keys, mem_set]
  constructor
  · intro given
    rcases given with ⟨content, ⟨same, _⟩ | ⟨_, member⟩⟩
    · exact Or.inl same
    · exact Or.inr ⟨content, member⟩
  · by_cases hit : other = key
    · exact fun _ => ⟨value, Or.inl ⟨hit, rfl⟩⟩
    · intro either
      rcases either with same | ⟨content, member⟩
      · exact absurd same hit
      · exact ⟨content, Or.inr ⟨hit, member⟩⟩

theorem mem_keys_ofAssignments (assignments : List (κ × ν)) (key : κ) :
    key ∈ (ofAssignments assignments).keys ↔ key ∈ assignments.map Prod.fst := by
  have general : ∀ (rest : List (κ × ν)) (dict : Dict κ ν),
      key ∈ (rest.foldl (fun dict entry => dict.set entry.1 entry.2) dict).keys ↔
        key ∈ rest.map Prod.fst ∨ key ∈ dict.keys := by
    intro rest
    induction rest with
    | nil => intro dict; simp
    | cons head tail ih =>
        intro dict
        rw [List.foldl_cons, ih, mem_keys_set, List.map_cons, List.mem_cons, or_left_comm, or_assoc]
  rw [ofAssignments, general]
  exact or_iff_left (by simp [empty, keys])

theorem set_absent (dict : Dict κ ν) (key : κ) (value : ν) (absent : key ∉ dict.keys) :
    (dict.set key value).entries = dict.entries ++ [(key, value)] := by
  unfold set
  split
  · rename_i present
    exact absurd present absent
  · rfl

theorem ofAssignments_entries (dict : Dict κ ν) : ofAssignments dict.entries = dict := by
  have general : ∀ (rest : List (κ × ν)) (front : Dict κ ν),
      ((front.entries ++ rest).map Prod.fst).Nodup →
        (rest.foldl (fun dict entry => dict.set entry.1 entry.2) front).entries =
          front.entries ++ rest := by
    intro rest
    induction rest with
    | nil => intro front _; rw [List.foldl_nil, List.append_nil]
    | cons entry rest ih =>
        intro front nodup
        have absent : entry.1 ∉ front.keys := by
          rw [List.map_append, List.map_cons] at nodup
          exact fun member => List.disjoint_of_nodup_append nodup member List.mem_cons_self
        have next := set_absent front entry.1 entry.2 absent
        rw [List.foldl_cons, ih, next, List.append_assoc, List.singleton_append]
        rw [next, List.append_assoc, List.singleton_append]
        exact nodup
  have same : (ofAssignments dict.entries).entries = dict.entries := by
    rw [ofAssignments, general dict.entries empty (by simpa [empty] using dict.nodup)]
    rfl
  exact eq_of_entries same

theorem assigned_of_mem (assignments : List (κ × ν)) (key : κ) (value : ν)
    (member : (key, value) ∈ ofAssignments assignments) : (key, value) ∈ assignments := by
  have general : ∀ (rest : List (κ × ν)) (dict : Dict κ ν),
      (key, value) ∈ rest.foldl (fun dict entry => dict.set entry.1 entry.2) dict →
        (key, value) ∈ rest ∨ (key, value) ∈ dict := by
    intro rest
    induction rest with
    | nil => intro dict found; exact Or.inr found
    | cons head tail ih =>
        intro dict found
        rcases ih _ found with later | now
        · exact Or.inl (List.mem_cons_of_mem _ later)
        · rcases (mem_set dict _ _ _ _).mp now with ⟨rfl, rfl⟩ | ⟨_, before⟩
          · exact Or.inl List.mem_cons_self
          · exact Or.inr before
  exact (general assignments empty member).resolve_right (not_mem_empty _)

/-- When no key is assigned two values the dictionary holds exactly the
assignments. -/
theorem mem_ofAssignments (assignments : List (κ × ν))
    (functional : ∀ key left right, (key, left) ∈ assignments → (key, right) ∈ assignments →
      left = right) (key : κ) (value : ν) :
    (key, value) ∈ ofAssignments assignments ↔ (key, value) ∈ assignments := by
  refine ⟨assigned_of_mem assignments key value, ?_⟩
  intro member
  obtain ⟨content, found⟩ := (mem_keys _ _).mp
    ((mem_keys_ofAssignments assignments key).mpr (List.mem_map.mpr ⟨_, member, rfl⟩))
  rw [functional key value content member (assigned_of_mem assignments key content found)]
  exact found

def lastValue (assignments : List (κ × ν)) (key : κ) : Option ν :=
  (assignments.filter fun entry => entry.1 = key).getLast?.map Prod.snd

def firstAssigned (assignments : List (κ × ν)) : List κ := (assignments.map Prod.fst).eraseDups

theorem mem_firstAssigned {assignments : List (κ × ν)} {key : κ} :
    key ∈ firstAssigned assignments ↔ key ∈ assignments.map Prod.fst := List.mem_eraseDups

theorem ofAssignments_concat (assignments : List (κ × ν)) (last : κ × ν) :
    ofAssignments (assignments ++ [last]) = (ofAssignments assignments).set last.1 last.2 := by
  rw [ofAssignments, List.foldl_append]
  rfl

theorem keys_set (dict : Dict κ ν) (key : κ) (value : ν) :
    (dict.set key value).keys = if key ∈ dict.keys then dict.keys else dict.keys ++ [key] := by
  unfold set keys
  split
  · rw [List.map_map]
    refine List.map_congr_left fun entry _ => ?_
    by_cases hit : entry.1 = key <;> simp [hit]
  · rw [List.map_append]
    rfl

theorem keys_ofAssignments (assignments : List (κ × ν)) :
    (ofAssignments assignments).keys = firstAssigned assignments := by
  induction assignments using List.reverseRecOn with
  | nil => rfl
  | append_singleton front last ih =>
      rw [ofAssignments_concat, keys_set, ih, firstAssigned, firstAssigned, List.map_append,
        List.eraseDups_append]
      by_cases seen : last.1 ∈ front.map Prod.fst
      · rw [if_pos (List.mem_eraseDups.mpr seen)]
        simp [List.removeAll, seen]
      · rw [if_neg (fun member => seen (List.mem_eraseDups.mp member))]
        simp [List.removeAll, seen, List.eraseDups_cons]

theorem get?_ofAssignments (assignments : List (κ × ν)) (key : κ) :
    (ofAssignments assignments).get? key = lastValue assignments key := by
  induction assignments using List.reverseRecOn with
  | nil => rfl
  | append_singleton front last ih =>
      rw [ofAssignments_concat, get?_set, ih, lastValue, lastValue, List.filter_append]
      by_cases same : last.1 = key
      · simp [same]
      · simp [same, Ne.symm same]

theorem keys_erase (dict : Dict κ ν) (key : κ) :
    (dict.erase key).keys = dict.keys.filter fun other => other ≠ key := by
  rw [erase, keys, keys, List.filter_map]
  rfl

theorem filter_keys_set (dict : Dict κ ν) (key : κ) (value : ν) (chosen : κ → Bool)
    (other : chosen key = false) :
    (dict.set key value).keys.filter chosen = dict.keys.filter chosen := by
  rw [keys_set]
  split
  · rfl
  · rw [List.filter_append, List.filter_cons_of_neg (by rw [other]; exact Bool.false_ne_true),
      List.filter_nil, List.append_nil]

theorem filter_keys_erase (dict : Dict κ ν) (key : κ) (chosen : κ → Bool)
    (other : chosen key = false) :
    (dict.erase key).keys.filter chosen = dict.keys.filter chosen := by
  rw [keys_erase, List.filter_filter]
  refine List.filter_congr fun name _ => ?_
  by_cases same : name = key
  · rw [same, other, Bool.false_and]
  · simp [same]

theorem lastValue_eq_some_iff (assignments : List (κ × ν)) (key : κ) (value : ν) :
    lastValue assignments key = some value ↔ ∃ front back,
      assignments = front ++ (key, value) :: back ∧ ∀ entry ∈ back, entry.1 ≠ key := by
  constructor
  · intro found
    obtain ⟨last, there, rfl⟩ := Option.map_eq_some_iff.mp found
    obtain ⟨before, chosen⟩ := List.getLast?_eq_some_iff.mp there
    obtain ⟨front, rest, rfl, _, tail⟩ := List.filter_eq_append_iff.mp chosen
    obtain ⟨skipped, back, rfl, _, same, none⟩ := List.filter_eq_cons_iff.mp tail
    rw [decide_eq_true_eq] at same
    refine ⟨front ++ skipped, back, ?_, fun entry member => ?_⟩
    · rw [List.append_assoc, ← same]
    · simpa using List.filter_eq_nil_iff.mp none entry member
  · intro given
    obtain ⟨front, back, rfl, others⟩ := given
    have none : (back.filter fun entry => entry.1 = key) = [] :=
      List.filter_eq_nil_iff.mpr fun entry member => by simpa using others entry member
    rw [lastValue, List.filter_append,
      List.filter_cons_of_pos (by rw [decide_eq_true_eq]), none, List.getLast?_concat,
      Option.map_some]

theorem mem_of_lastValue {assignments : List (κ × ν)} {key : κ} {value : ν}
    (last : lastValue assignments key = some value) : (key, value) ∈ assignments := by
  obtain ⟨front, back, rfl, _⟩ := (lastValue_eq_some_iff _ _ _).mp last
  exact List.mem_append_right _ List.mem_cons_self

theorem lastValue_append_of_ne (front back : List (κ × ν)) (key : κ)
    (other : ∀ entry ∈ back, entry.1 ≠ key) :
    lastValue (front ++ back) key = lastValue front key := by
  have none : (back.filter fun entry => entry.1 = key) = [] :=
    List.filter_eq_nil_iff.mpr fun entry member => by simpa using other entry member
  rw [lastValue, lastValue, List.filter_append, none, List.append_nil]

theorem eq_of_get? {first second : Dict κ ν} (keys : first.keys = second.keys)
    (values : ∀ key, first.get? key = second.get? key) : first = second := by
  apply eq_of_entries
  have length : first.entries.length = second.entries.length := by
    simpa only [Dict.keys, List.length_map] using congrArg List.length keys
  refine List.ext_getElem length fun index before after => ?_
  have key : first.entries[index].1 = second.entries[index].1 := by
    have same := List.getElem_of_eq keys (by simpa only [Dict.keys, List.length_map] using before)
    simpa only [Dict.keys, List.getElem_map] using same
  have here : (second.entries[index].1, first.entries[index].2) ∈ second := by
    rw [← get?_eq_some_iff, ← values, get?_eq_some_iff, ← key]
    exact List.getElem_mem before
  exact Prod.ext key (value_unique second _ _ _ here (List.getElem_mem after))

theorem entries_ofAssignments {assignments : List (κ × ν)}
    (once : (assignments.map Prod.fst).Nodup) : (ofAssignments assignments).entries = assignments :=
  congrArg entries (ofAssignments_entries ⟨assignments, once⟩)

theorem getLast?_filter_entries (dict : Dict κ ν) (chosen : κ → Bool) :
    (dict.entries.filter fun entry => chosen entry.1).getLast?.map Prod.snd =
      (dict.keys.filter chosen).getLast?.bind dict.get? := by
  have names : dict.keys.filter chosen =
      (dict.entries.filter fun entry => chosen entry.1).map Prod.fst := by
    rw [keys, List.filter_map]
    rfl
  rw [names, List.getLast?_map]
  cases last : (dict.entries.filter fun entry => chosen entry.1).getLast? with
  | none => rfl
  | some entry =>
      have member : entry ∈ dict.entries :=
        List.mem_of_mem_filter (List.mem_of_getLast? last)
      exact ((get?_eq_some_iff dict entry.1 entry.2).mpr member).symm

theorem set_entries_perm (dict : Dict κ ν) (key : κ) (value : ν) :
    (dict.set key value).entries.Perm ((key, value) :: (dict.erase key).entries) := by
  have apart : (key, value) ∉ (dict.erase key).entries := fun member =>
    ((mem_erase dict key key value).mp member).1 rfl
  refine (List.perm_ext_iff_of_nodup (entries_nodup _)
    (List.nodup_cons.mpr ⟨apart, entries_nodup _⟩)).mpr fun entry => ?_
  obtain ⟨other, content⟩ := entry
  rw [List.mem_cons, Prod.mk.injEq]
  exact (mem_set dict key other value content).trans
    (or_congr_right (mem_erase dict key other content).symm)

theorem entries_perm (dict : Dict κ ν) {key : κ} {value : ν} (found : dict.get? key = some value) :
    dict.entries.Perm ((key, value) :: (dict.erase key).entries) := by
  have apart : (key, value) ∉ (dict.erase key).entries := fun member =>
    ((mem_erase dict key key value).mp member).1 rfl
  refine (List.perm_ext_iff_of_nodup (entries_nodup _)
    (List.nodup_cons.mpr ⟨apart, entries_nodup _⟩)).mpr fun entry => ?_
  obtain ⟨other, content⟩ := entry
  have present := (get?_eq_some_iff dict key value).mp found
  rw [List.mem_cons, Prod.mk.injEq]
  constructor
  · intro member
    by_cases same : other = key
    · subst same
      exact .inl ⟨rfl, value_unique dict other content value member present⟩
    · exact .inr ((mem_erase dict key other content).mpr ⟨same, member⟩)
  · intro either
    rcases either with ⟨rfl, rfl⟩ | member
    · exact present
    · exact ((mem_erase dict key other content).mp member).2

theorem erase_absent (dict : Dict κ ν) {key : κ} (absent : dict.get? key = none) :
    (dict.erase key).entries = dict.entries := by
  refine List.filter_eq_self.mpr fun entry member => decide_eq_true fun same => ?_
  have value := (get?_eq_some_iff dict key entry.2).mpr (same ▸ member)
  cases absent.symm.trans value

end Dict

end ScalarLM
