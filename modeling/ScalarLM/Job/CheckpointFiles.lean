import Mathlib.Data.List.Sort
import ScalarLM.Lib.Dict
import ScalarLM.Lib.Slice

/-! The checkpoint files of a job directory, each under the step in its name. -/

namespace ScalarLM.Job

open Slice

variable {Content : Type}

/-- `get_latest_checkpoint_path`: the file with the highest step in its name. -/
def getLatestCheckpoint (files : Dict Nat Content) : Option (Nat × Content) :=
  files.keys.max?.bind fun step => (files.get? step).map fun content => (step, content)

def sortedCheckpoints (files : Dict Nat Content) : List Nat :=
  files.keys.insertionSort (· ≤ ·)

def oldCheckpoints (maxCheckpointsToKeep : Int) (files : Dict Nat Content) : List Nat :=
  if maxCheckpointsToKeep < (sortedCheckpoints files).length then
    sliceTo (sortedCheckpoints files) (-maxCheckpointsToKeep)
  else []

theorem getLatestCheckpoint_none (files : Dict Nat Content) :
    getLatestCheckpoint files = none ↔ files.keys = [] := by
  rw [getLatestCheckpoint, Option.bind_eq_none_iff]
  constructor
  · intro missing
    cases highest : files.keys.max? with
    | none => exact List.max?_eq_none_iff.mp highest
    | some step =>
        have absent := missing step highest
        rw [Option.map_eq_none_iff, Dict.get?_eq_none_iff_not_mem_keys] at absent
        exact absurd (List.max?_mem highest) absent
  · intro empty step highest
    rw [empty] at highest
    cases highest

theorem getLatestCheckpoint_some (files : Dict Nat Content) (step : Nat) (content : Content) :
    getLatestCheckpoint files = some (step, content) ↔
      (step, content) ∈ files ∧ ∀ other ∈ files.keys, other ≤ step := by
  rw [getLatestCheckpoint, Option.bind_eq_some_iff]
  constructor
  · intro given
    rcases given with ⟨highest, isMax, found⟩
    obtain ⟨value, there, same⟩ := Option.map_eq_some_iff.mp found
    obtain ⟨rfl, rfl⟩ := Prod.mk.inj same
    exact ⟨(Dict.get?_eq_some_iff _ _ _).mp there, (List.max?_eq_some_iff.mp isMax).2⟩
  · intro given
    rcases given with ⟨member, bound⟩
    refine ⟨step, ?_, ?_⟩
    · exact List.max?_eq_some_iff.mpr ⟨(Dict.mem_keys files step).mpr ⟨content, member⟩, bound⟩
    · rw [(Dict.get?_eq_some_iff _ _ _).mpr member]
      rfl

theorem getLatestCheckpoint_set (files : Dict Nat Content) (step : Nat) (content : Content)
    (bound : ∀ other ∈ files.keys, other ≤ step) :
    getLatestCheckpoint (files.set step content) = some (step, content) := by
  rw [getLatestCheckpoint_some]
  refine ⟨(Dict.mem_set _ _ _ _ _).mpr (.inl ⟨rfl, rfl⟩), ?_⟩
  intro other member
  rcases (Dict.mem_keys_set _ _ _ _).mp member with rfl | old
  · exact Nat.le_refl _
  · exact bound other old

theorem mem_keys_erase (files : Dict Nat Content) (old step : Nat)
    (member : step ∈ (files.erase old).keys) : step ∈ files.keys := by
  obtain ⟨value, there⟩ := (Dict.mem_keys _ _).mp member
  exact (Dict.mem_keys _ _).mpr ⟨value, ((Dict.mem_erase _ _ _ _).mp there).2⟩

theorem getLatestCheckpoint_erase (files : Dict Nat Content) (old step : Nat) (content : Content)
    (latest : getLatestCheckpoint files = some (step, content)) (older : old < step) :
    getLatestCheckpoint (files.erase old) = some (step, content) := by
  obtain ⟨member, bound⟩ := (getLatestCheckpoint_some _ _ _).mp latest
  rw [getLatestCheckpoint_some, Dict.mem_erase]
  refine ⟨⟨Nat.ne_of_gt older, member⟩, ?_⟩
  exact fun other kept => bound other (mem_keys_erase files old other kept)

theorem mem_sortedCheckpoints (files : Dict Nat Content) (step : Nat) :
    step ∈ sortedCheckpoints files ↔ step ∈ files.keys :=
  List.mem_insertionSort _

theorem sortedCheckpoints_length (files : Dict Nat Content) :
    (sortedCheckpoints files).length = files.keys.length :=
  List.length_insertionSort _ _

theorem sortedCheckpoints_increasing (files : Dict Nat Content) :
    (sortedCheckpoints files).Pairwise (· < ·) := by
  have sorted : (sortedCheckpoints files).Pairwise (· ≤ ·) := List.pairwise_insertionSort _ _
  have distinct : (sortedCheckpoints files).Nodup :=
    (List.perm_insertionSort _ _).nodup_iff.mpr files.nodup
  exact (sorted.and distinct).imp fun both => Nat.lt_of_le_of_ne both.1 both.2

theorem lt_of_mem_take {steps : List Nat} (increasing : steps.Pairwise (· < ·)) {count last : Nat}
    (short : count < steps.length) (bound : ∀ step ∈ steps, step ≤ last) :
    ∀ step ∈ steps.take count, step < last := by
  intro step taken
  have split := increasing
  rw [← List.take_append_drop count steps, List.pairwise_append] at split
  have left : steps.drop count ≠ [] := by
    rw [ne_eq, List.drop_eq_nil_iff]
    omega
  obtain ⟨next, rest, dropped⟩ := List.exists_cons_of_ne_nil left
  have next_mem : next ∈ steps.drop count := by
    rw [dropped]
    exact List.mem_cons_self
  exact Nat.lt_of_lt_of_le (split.2.2 step taken next next_mem)
    (bound next (List.mem_of_mem_drop next_mem))

/-- A number of files to keep that is not negative, or whose negative is smaller than
the number of files, spares the latest one. -/
theorem oldCheckpoints_lt (maxCheckpointsToKeep : Int) (files : Dict Nat Content) (last : Nat)
    (spares : 0 ≤ maxCheckpointsToKeep ∨ -maxCheckpointsToKeep < files.keys.length)
    (member : last ∈ files.keys) (bound : ∀ step ∈ files.keys, step ≤ last) :
    ∀ step ∈ oldCheckpoints maxCheckpointsToKeep files, step < last := by
  intro step old
  rw [oldCheckpoints] at old
  split at old
  · rename_i more
    rw [sliceTo] at old
    rw [sortedCheckpoints_length] at more
    by_cases zero : maxCheckpointsToKeep = 0
    · rw [zero] at old
      exact absurd old List.not_mem_nil
    · refine lt_of_mem_take (sortedCheckpoints_increasing files) ?_
        (fun other there => bound other ((mem_sortedCheckpoints files other).mp there)) step old
      have positive := List.length_pos_of_mem member
      rw [sortedCheckpoints_length]
      split <;> omega
  · exact absurd old List.not_mem_nil

end ScalarLM.Job
