import Mathlib.Data.Multiset.AddSub
import Mathlib.Data.Multiset.Dedup
import ScalarLM.Lib.Dict

/-! What the values of a dictionary hold together. -/

namespace ScalarLM.Dict

variable {κ ν ι : Type} [DecidableEq κ]

def gather (hold : ν → List ι) (dict : Dict κ ν) : Multiset ι :=
  ↑(dict.entries.flatMap fun entry => hold entry.2)

variable {hold : ν → List ι} {dict : Dict κ ν} {key : κ} {value : ν}

theorem gather_set : (dict.set key value).gather hold =
    (dict.erase key).gather hold + ↑(hold value) := by
  have perm := (dict.set_entries_perm key value).flatMap_right fun entry => hold entry.2
  rw [gather, Multiset.coe_eq_coe.mpr perm, List.flatMap_cons, ← Multiset.coe_add,
    Multiset.add_comm]
  rfl

theorem gather_found (found : dict.get? key = some value) :
    dict.gather hold = (dict.erase key).gather hold + ↑(hold value) := by
  have perm := (dict.entries_perm found).flatMap_right fun entry => hold entry.2
  rw [gather, Multiset.coe_eq_coe.mpr perm, List.flatMap_cons, ← Multiset.coe_add,
    Multiset.add_comm]
  rfl

theorem gather_absent (absent : dict.get? key = none) :
    (dict.erase key).gather hold = dict.gather hold := by
  rw [gather, dict.erase_absent absent, gather]

theorem mem_gather {held : ι} : held ∈ dict.gather hold ↔
    ∃ key value, dict.get? key = some value ∧ held ∈ hold value := by
  rw [gather, Multiset.mem_coe, List.mem_flatMap]
  constructor
  · intro given
    obtain ⟨entry, member, inside⟩ := given
    exact ⟨entry.1, entry.2, (Dict.get?_eq_some_iff _ _ _).mpr member, inside⟩
  · intro given
    obtain ⟨key, value, found, inside⟩ := given
    exact ⟨(key, value), (Dict.get?_eq_some_iff _ _ _).mp found, inside⟩

end ScalarLM.Dict
