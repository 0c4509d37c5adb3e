import ScalarLM.Lib.Blocks
import Mathlib.Analysis.Real.Sqrt
import Mathlib.Tactic.Linarith

/-! Scaling vectors down to a bound on their norm, each by itself or all together. -/

namespace ScalarLM.Clipping

open Blocks

def squares (vectors : List (List ℝ)) : ℝ := (vectors.map fun vector => dot vector vector).sum

noncomputable def totalNorm (vectors : List (List ℝ)) : ℝ := √(squares vectors)

/-- What a vector of the given norm is scaled by to keep it within the bound; the
zero vector is within every bound. -/
noncomputable def clipFactor (bound norm : ℝ) : ℝ :=
  if norm = 0 then 1 else min 1 (bound / norm)

theorem dot_self_nonneg (vector : List ℝ) : 0 ≤ dot vector vector := by
  induction vector with
  | nil => simp
  | cons entry rest ih =>
      rw [dot_cons]
      exact add_nonneg (mul_self_nonneg entry) ih

theorem dot_self_eq_zero_iff (vector : List ℝ) :
    dot vector vector = 0 ↔ ∀ entry ∈ vector, entry = 0 := by
  induction vector with
  | nil => simp
  | cons entry rest ih =>
      rw [dot_cons, add_eq_zero_iff_of_nonneg (mul_self_nonneg entry) (dot_self_nonneg rest), ih,
        mul_self_eq_zero, List.forall_mem_cons]

theorem squares_cons (vector : List ℝ) (rest : List (List ℝ)) :
    squares (vector :: rest) = dot vector vector + squares rest := by
  simp [squares]

theorem squares_nonneg (vectors : List (List ℝ)) : 0 ≤ squares vectors := by
  apply List.sum_nonneg
  intro square member
  obtain ⟨vector, _, rfl⟩ := List.mem_map.mp member
  exact dot_self_nonneg vector

theorem squares_eq_zero_iff (vectors : List (List ℝ)) :
    squares vectors = 0 ↔ ∀ vector ∈ vectors, ∀ entry ∈ vector, entry = 0 := by
  induction vectors with
  | nil => simp [squares]
  | cons vector rest ih =>
      rw [squares_cons,
        add_eq_zero_iff_of_nonneg (dot_self_nonneg vector) (squares_nonneg rest),
        dot_self_eq_zero_iff, ih, List.forall_mem_cons]

theorem totalNorm_nonneg (vectors : List (List ℝ)) : 0 ≤ totalNorm vectors :=
  Real.sqrt_nonneg _

theorem totalNorm_sq (vectors : List (List ℝ)) : totalNorm vectors ^ 2 = squares vectors :=
  Real.sq_sqrt (squares_nonneg vectors)

section Factor

variable (bound : ℝ)

theorem clipFactor_of_le (norm : ℝ) (nonneg : 0 ≤ norm) (within : norm ≤ bound) :
    clipFactor bound norm = 1 := by
  unfold clipFactor
  split
  · rfl
  · next nonzero =>
    have large : 0 < norm := lt_of_le_of_ne nonneg (Ne.symm nonzero)
    exact min_eq_left ((one_le_div large).mpr within)

variable (positive : 0 < bound)

include positive

theorem clipFactor_of_gt (norm : ℝ) (beyond : bound < norm) :
    clipFactor bound norm = bound / norm := by
  have large : 0 < norm := lt_trans positive beyond
  rw [clipFactor, if_neg large.ne']
  exact min_eq_right ((div_le_one large).mpr beyond.le)

theorem norm_eq_of_clipFactor_eq (norm total : ℝ) (nonneg : 0 ≤ norm) (beyond : bound < total)
    (same : clipFactor bound norm = clipFactor bound total) : norm = total := by
  have large : 0 < total := lt_trans positive beyond
  have small : clipFactor bound total < 1 := by
    rw [clipFactor_of_gt bound positive total beyond]
    exact (div_lt_one large).mpr beyond
  have above : bound < norm := by
    by_contra within
    rw [clipFactor_of_le bound norm nonneg (not_lt.mp within)] at same
    exact small.ne same.symm
  have here : 0 < norm := lt_trans positive above
  rw [clipFactor_of_gt bound positive norm above, clipFactor_of_gt bound positive total beyond,
    div_eq_div_iff here.ne' large.ne'] at same
  exact (mul_left_cancel₀ positive.ne' same).symm

end Factor

structure Parts where
  count : Nat
  norms : Nat → ℝ
  total : ℝ
  nonneg : ∀ index, index < count → 0 ≤ norms index
  total_nonneg : 0 ≤ total
  pythagoras : sumTo count (fun index => norms index ^ 2) = total ^ 2

namespace Parts

variable (parts : Parts) (bound : ℝ)

theorem norm_le_total (index : Nat) (below : index < parts.count) :
    parts.norms index ≤ parts.total := by
  apply le_of_sq_le_sq _ parts.total_nonneg
  rw [← parts.pythagoras]
  apply List.single_le_sum
  · intro square member
    obtain ⟨other, _, rfl⟩ := List.mem_map.mp member
    exact sq_nonneg _
  · exact List.mem_map.mpr ⟨index, List.mem_range.mpr below, rfl⟩

theorem total_eq_zero (vanish : ∀ index, index < parts.count → parts.norms index = 0) :
    parts.total = 0 := by
  have none : sumTo parts.count (fun index => parts.norms index ^ 2) =
      sumTo parts.count fun _ => 0 := by
    apply sumTo_congr
    intro index below
    rw [vanish index below]
    norm_num
  have square := parts.pythagoras
  rw [none] at square
  simp only [sumTo, List.map_const', List.sum_replicate, smul_zero] at square
  exact (pow_eq_zero_iff (by decide)).mp square.symm

theorem factor_eq_of_within (within : parts.total ≤ bound) (index : Nat)
    (below : index < parts.count) :
    clipFactor bound (parts.norms index) = clipFactor bound parts.total := by
  have small := (parts.norm_le_total index below).trans within
  rw [clipFactor_of_le bound _ (parts.nonneg index below) small,
    clipFactor_of_le bound _ parts.total_nonneg within]

/-- Parts that all agree on a factor, where they are scaled at all, agree on that of
the whole. -/
theorem common_factor_iff :
    ((∀ index, index < parts.count → parts.norms index = 0 ∨
          clipFactor bound (parts.norms index) = clipFactor bound parts.total) ∧
        ∀ index other, index < parts.count → other < parts.count →
          clipFactor bound (parts.norms index) = clipFactor bound (parts.norms other)) ↔
      ∀ index, index < parts.count →
        clipFactor bound (parts.norms index) = clipFactor bound parts.total := by
  constructor
  · intro both index below
    obtain ⟨agree, same⟩ := both
    by_cases vanish : ∀ index, index < parts.count → parts.norms index = 0
    · rw [vanish index below, parts.total_eq_zero vanish]
    · push Not at vanish
      obtain ⟨other, inside, nonzero⟩ := vanish
      rw [same index other below inside]
      exact (agree other inside).resolve_left nonzero
  · intro each
    refine ⟨fun index below => Or.inr (each index below), ?_⟩
    intro index other below inside
    rw [each index below, each other inside]

variable (positive : 0 < bound)

include positive

/-- Scaling every part by its own factor scales the whole by its factor exactly when
the whole is within the bound or is one of the parts. -/
theorem clip_agrees_iff :
    (∀ index, index < parts.count → parts.norms index = 0 ∨
        clipFactor bound (parts.norms index) = clipFactor bound parts.total) ↔
      parts.total ≤ bound ∨ ∀ index, index < parts.count →
        parts.norms index = 0 ∨ parts.norms index = parts.total := by
  constructor
  · intro agree
    rcases le_or_gt parts.total bound with within | beyond
    · exact Or.inl within
    · refine Or.inr fun index below => ?_
      rcases agree index below with vanishes | same
      · exact Or.inl vanishes
      · exact Or.inr (norm_eq_of_clipFactor_eq bound positive _ _ (parts.nonneg index below)
          beyond same)
  · intro within
    rcases within with within | alone
    · exact fun index below => Or.inr (parts.factor_eq_of_within bound within index below)
    · intro index below
      rcases alone index below with vanishes | whole
      · exact Or.inl vanishes
      · exact Or.inr (by rw [whole])

/-- Every part gets the factor of the whole exactly when there is one part only or
the whole is within the bound. -/
theorem factors_agree_iff :
    (∀ index, index < parts.count →
        clipFactor bound (parts.norms index) = clipFactor bound parts.total) ↔
      parts.count = 1 ∨ parts.total ≤ bound := by
  constructor
  · intro agree
    rcases le_or_gt parts.total bound with within | beyond
    · exact Or.inr within
    · left
      have large : 0 < parts.total ^ 2 := pow_pos (positive.trans beyond) 2
      have whole : ∀ index, index < parts.count → parts.norms index = parts.total :=
        fun index below => norm_eq_of_clipFactor_eq bound positive _ _
          (parts.nonneg index below) beyond (agree index below)
      have square : (parts.count : ℝ) * parts.total ^ 2 = 1 * parts.total ^ 2 := calc
        (parts.count : ℝ) * parts.total ^ 2 = sumTo parts.count fun _ => parts.total ^ 2 := by
          simp [sumTo]
        _ = sumTo parts.count fun index => parts.norms index ^ 2 := by
          apply sumTo_congr
          intro index below
          rw [whole index below]
        _ = 1 * parts.total ^ 2 := by rw [parts.pythagoras, one_mul]
      exact_mod_cast mul_right_cancel₀ large.ne' square
  · intro condition index below
    rcases condition with single | within
    · have square := parts.pythagoras
      obtain rfl : index = 0 := by omega
      rw [single] at square
      simp only [sumTo, List.range_one, List.map_cons, List.map_nil, List.sum_singleton] at square
      rw [(pow_left_inj₀ (parts.nonneg 0 below) parts.total_nonneg (by decide)).mp square]
    · exact parts.factor_eq_of_within bound within index below

end Parts

end ScalarLM.Clipping
