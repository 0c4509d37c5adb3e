import ScalarLM.Lib.Clipping
import ScalarLM.Training.ReduceScatter

/-! Gradient clipping on the ranks' shards. -/

namespace ScalarLM.Training

open Blocks Clipping Slice

/-- A parameter, and the gradient of the whole of it that every rank computes. -/
structure FullGradients (worldSize : Nat) where
  tensor : Tensor ℝ
  grads : Nat → Tensor ℝ
  sized : ∀ rank, rank < worldSize → (grads rank).numel = tensor.numel

/-- A backward pass and the value its gradients are clipped at. -/
structure BackwardPass where
  worldSize : Nat
  ranks : 1 ≤ worldSize
  parameters : List (FullGradients worldSize)
  clipValue : ℝ
  positive : 0 < clipValue

/-- All of a process's gradients scaled by one factor, that of their common norm. -/
noncomputable def clipGradNorm (maxNorm : ℝ) (grads : List (List ℝ)) : List (List ℝ) :=
  grads.map fun grad => grad.map (clipFactor maxNorm (totalNorm grads) * ·)

noncomputable def FullGradients.sum {worldSize : Nat} (parameter : FullGradients worldSize) :
    List ℝ :=
  addLists parameter.tensor.numel worldSize fun sender => (parameter.grads sender).data

namespace BackwardPass

variable (pass : BackwardPass)

noncomputable def shardGradients (rank : Nat) : Option (List (List ℝ)) :=
  pass.parameters.mapM fun parameter =>
    gradientShard pass.worldSize parameter.tensor parameter.grads rank

noncomputable def fullGradients : List (List ℝ) := pass.parameters.map FullGradients.sum

/-- The ranks' pieces of every parameter laid end to end, without the padding. -/
def concatenated (pieces : Nat → List (List ℝ)) : List (List ℝ) :=
  pass.parameters.mapIdx fun index parameter =>
    (join pass.worldSize fun rank => (pieces rank).getD index []).take parameter.tensor.numel

/-- The ranks' clipped gradients are together those of one process, and they all
were scaled alike. -/
structure ClippedGlobally (shards : Nat → List (List ℝ)) : Prop where
  received : ∀ rank, rank < pass.worldSize → pass.shardGradients rank = some (shards rank)
  whole : pass.concatenated (fun rank => clipGradNorm pass.clipValue (shards rank)) =
    clipGradNorm pass.clipValue pass.fullGradients
  alike : ∀ rank other, rank < pass.worldSize → other < pass.worldSize →
    clipFactor pass.clipValue (totalNorm (shards rank)) =
      clipFactor pass.clipValue (totalNorm (shards other))

end BackwardPass

namespace FullGradients

variable {worldSize : Nat} (parameter : FullGradients worldSize)

noncomputable def blockOf (rank : Nat) : List ℝ :=
  block (shardSizeOf worldSize parameter.tensor.numel)
    (paddedGradientSum worldSize parameter.tensor parameter.grads) rank

/-- The block of a rank, on the last rank cut where the backward pass cuts it. -/
noncomputable def shardOf (rank : Nat) : List ℝ :=
  if rank + 1 = worldSize then
    sliceTo (parameter.blockOf rank)
      ((parameter.tensor.numel : Int) - paddingOf worldSize parameter.tensor.numel)
  else parameter.blockOf rank

theorem gradientShard_eq_shardOf (rank : Nat) (bound : rank < worldSize) :
    gradientShard worldSize parameter.tensor parameter.grads rank =
      some (parameter.shardOf rank) :=
  gradientShard_eq worldSize parameter.tensor parameter.grads rank bound

theorem sum_length : parameter.sum.length = parameter.tensor.numel := addLists_length _ _ _

theorem padded_sum_length :
    (paddedGradientSum worldSize parameter.tensor parameter.grads).length =
      worldSize * shardSizeOf worldSize parameter.tensor.numel := addLists_length _ _ _

theorem blockOf_length (rank : Nat) (bound : rank < worldSize) :
    (parameter.blockOf rank).length = shardSizeOf worldSize parameter.tensor.numel :=
  gradient_block_length worldSize parameter.tensor parameter.grads rank bound

variable (ranks : 1 ≤ worldSize)

include ranks

theorem paddedGradientSum_eq :
    paddedGradientSum worldSize parameter.tensor parameter.grads =
      parameter.sum ++ List.replicate (paddingOf worldSize parameter.tensor.numel) 0 := by
  rw [paddedGradientSum, ← (padded_layout worldSize parameter.tensor.numel ranks).1,
    addLists_pad _ _ _ _ parameter.sized]
  rfl

theorem blockOf_zero (rank : Nat)
    (behind : parameter.tensor.numel ≤ rank * shardSizeOf worldSize parameter.tensor.numel) :
    ∀ entry ∈ parameter.blockOf rank, entry = 0 := by
  intro entry member
  have tail := List.mem_of_mem_take member
  rw [parameter.paddedGradientSum_eq ranks, List.drop_append,
    List.drop_of_length_le (by rw [parameter.sum_length]; exact behind), List.nil_append,
    List.drop_replicate] at tail
  exact (List.mem_replicate.mp tail).2

theorem shardOf_cases (rank : Nat) (bound : rank < worldSize) :
    parameter.shardOf rank = parameter.blockOf rank ∨
      rank + 1 = worldSize ∧
        parameter.tensor.numel ≤ rank * shardSizeOf worldSize parameter.tensor.numel := by
  rcases Nat.lt_or_ge (rank * shardSizeOf worldSize parameter.tensor.numel)
    parameter.tensor.numel with within | behind
  · -- the block starts inside the parameter, so that the cut leaves it whole
    left
    have nonempty : 1 ≤ parameter.tensor.numel := by omega
    have positive := shardSizeOf_pos worldSize parameter.tensor.numel ranks nonempty
    unfold shardOf
    split
    · next last =>
      have room : rank ≤ rank * shardSizeOf worldSize parameter.tensor.numel :=
        Nat.le_mul_of_pos_right rank positive
      have whole := gradientShard_untrimmed worldSize ranks parameter.tensor parameter.grads
        nonempty (by omega) rank bound
      rw [parameter.gradientShard_eq_shardOf rank bound, shardOf, if_pos last,
        Option.some.injEq] at whole
      exact whole
    · rfl
  · rcases Nat.lt_or_ge (rank + 1) worldSize with before | last
    · exact Or.inl (if_neg before.ne)
    · exact Or.inr ⟨by omega, behind⟩

theorem dot_shardOf (rank : Nat) (bound : rank < worldSize) :
    dot (parameter.shardOf rank) (parameter.shardOf rank) =
      dot (parameter.blockOf rank) (parameter.blockOf rank) := by
  rcases parameter.shardOf_cases ranks rank bound with whole | cut
  · rw [whole]
  · have zeros := parameter.blockOf_zero ranks rank cut.2
    rw [(dot_self_eq_zero_iff _).mpr zeros, dot_self_eq_zero_iff]
    intro entry member
    rw [shardOf, if_pos cut.1] at member
    exact zeros entry (List.mem_of_mem_take member)

theorem join_shardOf (factor : Nat → ℝ) :
    (join worldSize fun rank => (parameter.shardOf rank).map (factor rank * ·)).take
        parameter.tensor.numel =
      parameter.sum.mapIdx fun position entry =>
        factor (position / shardSizeOf worldSize parameter.tensor.numel) * entry := by
  have blocks : (join worldSize fun rank => (parameter.blockOf rank).map (factor rank * ·)).take
      parameter.tensor.numel =
        parameter.sum.mapIdx fun position entry =>
          factor (position / shardSizeOf worldSize parameter.tensor.numel) * entry := by
    have scaled := join_block_map (shardSizeOf worldSize parameter.tensor.numel) worldSize
      (paddedGradientSum worldSize parameter.tensor parameter.grads)
      fun rank entry => factor rank * entry
    rw [List.take_of_length_le (parameter.padded_sum_length).le,
      parameter.paddedGradientSum_eq ranks, List.mapIdx_append] at scaled
    simp only [blockOf, parameter.paddedGradientSum_eq ranks]
    rw [scaled, List.take_left' (by rw [List.length_mapIdx, parameter.sum_length])]
  rw [← blocks]
  obtain ⟨last, rfl⟩ : ∃ last, worldSize = last + 1 := ⟨worldSize - 1, by omega⟩
  have before : (join last fun rank => (parameter.shardOf rank).map (factor rank * ·)) =
      join last fun rank => (parameter.blockOf rank).map (factor rank * ·) := by
    apply join_congr
    intro rank bound
    rw [shardOf, if_neg (by omega)]
  rw [join_succ, join_succ, before]
  rcases parameter.shardOf_cases ranks last (by omega) with whole | cut
  · rw [whole]
  · have covers : parameter.tensor.numel ≤
        (join last fun rank => (parameter.blockOf rank).map (factor rank * ·)).length := by
      rw [join_length (shardSizeOf (last + 1) parameter.tensor.numel) last _ fun rank bound => by
        rw [List.length_map, parameter.blockOf_length rank (by omega)]]
      exact cut.2
    rw [List.take_append_of_le_length covers, List.take_append_of_le_length covers]

theorem mem_blockOf (position : Nat) (entry : ℝ)
    (found : parameter.sum[position]? = some entry) :
    position / shardSizeOf worldSize parameter.tensor.numel < worldSize ∧
      entry ∈ parameter.blockOf (position / shardSizeOf worldSize parameter.tensor.numel) := by
  have inside := (List.getElem?_eq_some_iff.mp found).1
  rw [parameter.sum_length] at inside
  have positive := shardSizeOf_pos worldSize parameter.tensor.numel ranks (by omega)
  have layout := (padded_layout worldSize parameter.tensor.numel ranks).1
  constructor
  · rw [Nat.div_lt_iff_lt_mul positive]
    omega
  · rw [blockOf, mem_block_iff _ positive, parameter.paddedGradientSum_eq ranks]
    refine ⟨position, ?_, rfl⟩
    rw [List.getElem?_append_left (by rw [parameter.sum_length]; exact inside)]
    exact found

theorem exists_position (rank : Nat) (entry : ℝ) (member : entry ∈ parameter.blockOf rank)
    (nonzero : entry ≠ 0) :
    ∃ position, parameter.sum[position]? = some entry ∧
      position / shardSizeOf worldSize parameter.tensor.numel = rank := by
  have positive : 0 < shardSizeOf worldSize parameter.tensor.numel := by
    have some_entry := List.length_pos_of_mem member
    rw [blockOf, block, List.length_take] at some_entry
    omega
  rw [blockOf, mem_block_iff _ positive, parameter.paddedGradientSum_eq ranks] at member
  obtain ⟨position, found, owner⟩ := member
  refine ⟨position, ?_, owner⟩
  rcases Nat.lt_or_ge position parameter.sum.length with inside | padding
  · rw [List.getElem?_append_left inside] at found
    exact found
  · rw [List.getElem?_append_right padding] at found
    exact absurd (List.mem_replicate.mp (List.mem_of_getElem? found)).2 nonzero

theorem dot_blocks :
    sumTo worldSize (fun rank => dot (parameter.blockOf rank) (parameter.blockOf rank)) =
      dot parameter.sum parameter.sum := by
  have joined : join worldSize parameter.blockOf =
      parameter.sum ++ List.replicate (paddingOf worldSize parameter.tensor.numel) 0 := by
    rw [← parameter.paddedGradientSum_eq ranks]
    have whole := join_block (shardSizeOf worldSize parameter.tensor.numel) worldSize
      (paddedGradientSum worldSize parameter.tensor parameter.grads)
    rw [List.take_of_length_le (parameter.padded_sum_length).le] at whole
    exact whole
  calc
    sumTo worldSize (fun rank => dot (parameter.blockOf rank) (parameter.blockOf rank)) =
        dot (join worldSize parameter.blockOf) (join worldSize parameter.blockOf) :=
      (dot_join _ _ _ _ parameter.blockOf_length parameter.blockOf_length).symm
    _ = dot parameter.sum parameter.sum := by
      rw [joined, dot_append _ _ _ _ rfl, dot_zeros, add_zero]

end FullGradients

namespace BackwardPass

variable (pass : BackwardPass)

noncomputable def shardsOf (rank : Nat) : List (List ℝ) :=
  pass.parameters.map fun parameter => parameter.shardOf rank

theorem shardGradients_eq (rank : Nat) (bound : rank < pass.worldSize) :
    pass.shardGradients rank = some (pass.shardsOf rank) := by
  have each : (fun parameter : FullGradients pass.worldSize =>
      gradientShard pass.worldSize parameter.tensor parameter.grads rank) =
        fun parameter => pure (parameter.shardOf rank) := by
    funext parameter
    exact parameter.gradientShard_eq_shardOf rank bound
  rw [shardGradients, each]
  exact List.mapM_pure

noncomputable def normOf (rank : Nat) : ℝ := totalNorm (pass.shardsOf rank)

theorem squares_shardsOf (rank : Nat) (bound : rank < pass.worldSize) :
    squares (pass.shardsOf rank) =
      squares (pass.parameters.map fun parameter => parameter.blockOf rank) := by
  rw [squares, squares, shardsOf, List.map_map, List.map_map]
  congr 1
  apply List.map_congr_left
  intro parameter _
  exact parameter.dot_shardOf pass.ranks rank bound

theorem normOf_eq_zero_iff (rank : Nat) (bound : rank < pass.worldSize) :
    pass.normOf rank = 0 ↔
      ∀ parameter ∈ pass.parameters, ∀ entry ∈ parameter.blockOf rank, entry = 0 := by
  rw [normOf, totalNorm, pass.squares_shardsOf rank bound,
    Real.sqrt_eq_zero (squares_nonneg _), squares_eq_zero_iff, List.forall_mem_map]

theorem sum_normOf_sq :
    sumTo pass.worldSize (fun rank => pass.normOf rank ^ 2) =
      totalNorm pass.fullGradients ^ 2 := by
  have each : ∀ rank, rank < pass.worldSize → pass.normOf rank ^ 2 =
      (pass.parameters.map fun parameter =>
        dot (parameter.blockOf rank) (parameter.blockOf rank)).sum := by
    intro rank bound
    rw [normOf, totalNorm_sq, pass.squares_shardsOf rank bound, squares, List.map_map]
    rfl
  calc
    sumTo pass.worldSize (fun rank => pass.normOf rank ^ 2) =
        sumTo pass.worldSize (fun rank => (pass.parameters.map fun parameter =>
          dot (parameter.blockOf rank) (parameter.blockOf rank)).sum) :=
      sumTo_congr _ _ _ each
    _ = (pass.parameters.map fun parameter => sumTo pass.worldSize fun rank =>
          dot (parameter.blockOf rank) (parameter.blockOf rank)).sum := sumTo_sum _ _ _
    _ = squares pass.fullGradients := by
      rw [squares, fullGradients, List.map_map]
      congr 1
      apply List.map_congr_left
      intro parameter _
      exact parameter.dot_blocks pass.ranks
    _ = totalNorm pass.fullGradients ^ 2 := (totalNorm_sq _).symm

noncomputable def parts : Parts where
  count := pass.worldSize
  norms := pass.normOf
  total := totalNorm pass.fullGradients
  nonneg := fun _ _ => totalNorm_nonneg _
  total_nonneg := totalNorm_nonneg _
  pythagoras := pass.sum_normOf_sq

theorem concatenated_clipped :
    pass.concatenated (fun rank => clipGradNorm pass.clipValue (pass.shardsOf rank)) =
      pass.parameters.map fun parameter =>
        parameter.sum.mapIdx fun position entry =>
          clipFactor pass.clipValue
            (pass.normOf (position / shardSizeOf pass.worldSize parameter.tensor.numel)) *
              entry := by
  apply List.ext_getElem
  · simp [concatenated]
  · intro index left right
    have bound : index < pass.parameters.length := by simpa using right
    rw [List.getElem_map, ← (pass.parameters[index]).join_shardOf pass.ranks
      fun rank => clipFactor pass.clipValue (pass.normOf rank)]
    simp [concatenated, clipGradNorm, shardsOf, normOf, bound]

/-- Laid end to end, the clipped shards are the clipped full gradients exactly when
every rank that has a gradient scales it as the full one is scaled. -/
theorem concatenated_iff :
    pass.concatenated (fun rank => clipGradNorm pass.clipValue (pass.shardsOf rank)) =
        clipGradNorm pass.clipValue pass.fullGradients ↔
      ∀ rank, rank < pass.worldSize → pass.normOf rank = 0 ∨
        clipFactor pass.clipValue (pass.normOf rank) =
          clipFactor pass.clipValue (totalNorm pass.fullGradients) := by
  rw [concatenated_clipped, clipGradNorm, fullGradients, List.map_map, List.map_inj_left]
  constructor
  · intro same rank bound
    by_cases zero : pass.normOf rank = 0
    · exact Or.inl zero
    · right
      rw [pass.normOf_eq_zero_iff rank bound] at zero
      push Not at zero
      obtain ⟨parameter, member, entry, inside, nonzero⟩ := zero
      obtain ⟨position, found, owner⟩ :=
        parameter.exists_position pass.ranks rank entry inside nonzero
      have entries := congrArg (·[position]?) (same parameter member)
      simp only [List.getElem?_mapIdx, Function.comp, List.getElem?_map, found, owner,
        Option.map_some, Option.some.injEq] at entries
      exact mul_right_cancel₀ nonzero entries
  · intro each parameter member
    apply List.ext_getElem?
    intro position
    simp only [List.getElem?_mapIdx, Function.comp, List.getElem?_map]
    cases found : parameter.sum[position]? with
    | none => rfl
    | some entry =>
        obtain ⟨bound, inside⟩ := parameter.mem_blockOf pass.ranks position entry found
        rcases each _ bound with zero | same
        · rw [pass.normOf_eq_zero_iff _ bound] at zero
          simp [zero parameter member entry inside]
        · rw [Option.map_some, Option.map_some, same]

/-- The clipped shards are the clipped full gradients exactly when the full norm is
within the clip value or one rank holds all of the gradient. -/
theorem concatenated_eq_iff :
    pass.concatenated (fun rank => clipGradNorm pass.clipValue (pass.shardsOf rank)) =
        clipGradNorm pass.clipValue pass.fullGradients ↔
      totalNorm pass.fullGradients ≤ pass.clipValue ∨
        ∀ rank, rank < pass.worldSize → pass.normOf rank = 0 ∨
          pass.normOf rank = totalNorm pass.fullGradients :=
  pass.concatenated_iff.trans (pass.parts.clip_agrees_iff pass.clipValue pass.positive)

theorem concatenated_congr (left right : Nat → List (List ℝ))
    (agree : ∀ rank, rank < pass.worldSize → left rank = right rank) :
    pass.concatenated left = pass.concatenated right := by
  have same : ∀ index, (join pass.worldSize fun rank => (left rank).getD index []) =
      join pass.worldSize fun rank => (right rank).getD index [] := by
    intro index
    apply join_congr
    intro rank bound
    rw [agree rank bound]
  simp only [concatenated, same]

theorem clippedGlobally_iff_factors :
    (∃ shards, pass.ClippedGlobally shards) ↔
      ∀ rank, rank < pass.worldSize → clipFactor pass.clipValue (pass.normOf rank) =
        clipFactor pass.clipValue (totalNorm pass.fullGradients) := by
  refine Iff.trans ?_ (pass.parts.common_factor_iff pass.clipValue)
  constructor
  · intro ⟨shards, clipped⟩
    have own : ∀ rank, rank < pass.worldSize → shards rank = pass.shardsOf rank := by
      intro rank bound
      have received := clipped.received rank bound
      rw [pass.shardGradients_eq rank bound, Option.some.injEq] at received
      exact received.symm
    have whole := clipped.whole
    rw [pass.concatenated_congr _ (fun rank => clipGradNorm pass.clipValue (pass.shardsOf rank))
      fun rank bound => by rw [own rank bound]] at whole
    refine ⟨pass.concatenated_iff.mp whole, ?_⟩
    intro rank other bound otherBound
    have alike := clipped.alike rank other bound otherBound
    rw [own rank bound, own other otherBound] at alike
    exact alike
  · intro ⟨agree, alike⟩
    exact ⟨pass.shardsOf, pass.shardGradients_eq, pass.concatenated_iff.mpr agree, alike⟩

/-- Clipping the shards is clipping the full gradients on one rank, and on several
exactly when there is nothing to clip. -/
theorem clipped_globally_iff :
    (∃ shards, pass.ClippedGlobally shards) ↔
      pass.worldSize = 1 ∨ totalNorm pass.fullGradients ≤ pass.clipValue :=
  pass.clippedGlobally_iff_factors.trans
    (pass.parts.factors_agree_iff pass.clipValue pass.positive)

/-- Two ranks that hold an entry each clip it to one. -/
theorem two_entries_clipped_apart : ¬ ∀ pass : BackwardPass,
    ∃ shards, pass.ClippedGlobally shards := by
  intro claimed
  let tensor : Tensor ℝ := ⟨[2], [3, 4], rfl⟩
  let pass : BackwardPass :=
    { worldSize := 2, ranks := by decide, parameters := [⟨tensor, fun _ => tensor, fun _ _ => rfl⟩],
      clipValue := 1, positive := one_pos }
  have factors := pass.clippedGlobally_iff_factors.mp (claimed pass)
  have within := (pass.parts.factors_agree_iff pass.clipValue pass.positive).mp factors
  have summed : pass.fullGradients = [[6, 8]] := by
    norm_num [fullGradients, FullGradients.sum, pass, tensor, addLists, sumTo, Tensor.numel,
      List.range_succ]
  have norm : totalNorm pass.fullGradients = 10 := by
    rw [summed, totalNorm, Real.sqrt_eq_iff_mul_self_eq (squares_nonneg _) (by norm_num)]
    norm_num [squares, dot]
  rcases within with single | small
  · exact absurd single (by decide : ¬ 2 = 1)
  · have bound : (10 : ℝ) ≤ 1 := norm ▸ small
    norm_num at bound

end BackwardPass

end ScalarLM.Training
