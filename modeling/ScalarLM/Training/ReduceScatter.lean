import ScalarLM.Training.GatherShard

/-! The backward pass of the gather. -/

namespace ScalarLM.Training

open Blocks Slice

variable {R : Type} [CommSemiring R]

/-- The zero-padded sum over the ranks of their full gradients. -/
def paddedGradientSum (worldSize : Nat) (tensor : Tensor R) (grads : Nat → Tensor R) : List R :=
  addLists (worldSize * shardSizeOf worldSize tensor.numel) worldSize fun sender =>
    (grads sender).data ++ List.replicate (paddingOf worldSize tensor.numel) 0

def gradientShard (worldSize : Nat) (tensor : Tensor R) (grads : Nat → Tensor R) (rank : Nat) :
    Option (List R) :=
  collectivesReduceScatter id id worldSize grads
    (shardTensor worldSize (fun _ => tensor) rank).2 rank

def gatherOf (worldSize : Nat) (tensor : Tensor R) (shards : Nat → List R) (rank : Nat) :
    Option (Tensor R) :=
  collectivesAllGather id id worldSize shards
    (shardTensor worldSize (fun _ => tensor) rank).2 rank

/-- The gradient every rank hands back has the length of its shard and is its
slice of the padded sum, so that the backward pass is the adjoint of the gather. -/
structure BackwardCorrect (worldSize : Nat) (tensor : Tensor R) (grads : Nat → Tensor R) :
    Prop where
  length : ∀ rank, rank < worldSize → ∃ gradient,
    gradientShard worldSize tensor grads rank = some gradient ∧
      gradient.length = (shardTensor worldSize (fun _ => tensor) rank).1.length
  slice : ∀ rank, rank < worldSize →
    gradientShard worldSize tensor grads rank =
      some (block (shardSizeOf worldSize tensor.numel)
        (paddedGradientSum worldSize tensor grads) rank)
  adjoint : ∀ shards : Nat → List R,
    (∀ rank, rank < worldSize → (shards rank).length = shardSizeOf worldSize tensor.numel) →
    ∃ (full : Nat → Tensor R) (gradient : Nat → List R),
      (∀ rank, rank < worldSize → gatherOf worldSize tensor shards rank = some (full rank)) ∧
      (∀ rank, rank < worldSize →
        gradientShard worldSize tensor grads rank = some (gradient rank)) ∧
      sumTo worldSize (fun rank => dot (full rank).data (grads rank).data) =
        sumTo worldSize (fun rank => dot (shards rank) (gradient rank))

/-- The last rank's shard outlasts the trimming exactly when the tensor fills
more than half of the ranks. -/
theorem last_shard_kept_iff (worldSize originalNumel : Nat) (ranks : 1 ≤ worldSize)
    (nonempty : 1 ≤ originalNumel) :
    (shardSizeOf worldSize originalNumel : Int) ≤
        (originalNumel : Int) - paddingOf worldSize originalNumel ↔
      worldSize < 2 * originalNumel := by
  obtain ⟨layout, small⟩ := padded_layout worldSize originalNumel ranks
  have positive := shardSizeOf_pos worldSize originalNumel ranks nonempty
  generalize shardSizeOf worldSize originalNumel = size at *
  generalize paddingOf worldSize originalNumel = padding at *
  rcases Nat.lt_or_ge 1 size with large | one
  · -- at least two entries a shard: the padding is shorter than the rest
    obtain ⟨extra, rfl⟩ : ∃ extra, size = extra + 2 := ⟨size - 2, by omega⟩
    have product : worldSize * (extra + 2) = worldSize * extra + 2 * worldSize := by ring
    have room : extra ≤ worldSize * extra := Nat.le_mul_of_pos_left extra ranks
    omega
  · have single : size = 1 := by omega
    subst single
    omega

theorem paddedGradient_eq (worldSize : Nat) (tensor : Tensor R) (grads : Nat → Tensor R)
    (sender : Nat) (bound : sender < worldSize) :
    paddedGradient id (List.replicate worldSize (metadataOf worldSize tensor)) grads sender =
      (grads sender).data ++ List.replicate (paddingOf worldSize tensor.numel) 0 := by
  simp [paddedGradient, bound, metadataOf, padWith_eq]

theorem gradientShard_eq (worldSize : Nat) (tensor : Tensor R) (grads : Nat → Tensor R)
    (rank : Nat) (bound : rank < worldSize) :
    gradientShard worldSize tensor grads rank =
      let shard := block (shardSizeOf worldSize tensor.numel)
        (paddedGradientSum worldSize tensor grads) rank
      some (if rank + 1 = worldSize then
        sliceTo shard ((tensor.numel : Int) - paddingOf worldSize tensor.numel) else shard) := by
  have own : (List.replicate worldSize (metadataOf worldSize tensor))[rank]? =
      some (metadataOf worldSize tensor) := by
    rw [List.getElem?_replicate, if_pos bound]
  have summed : reduceScatter worldSize (metadataOf worldSize tensor).shardSize
      (paddedGradient id (List.replicate worldSize (metadataOf worldSize tensor)) grads) rank =
        block (shardSizeOf worldSize tensor.numel)
          (paddedGradientSum worldSize tensor grads) rank := by
    rw [paddedGradientSum, block_addLists _ _ _ _ rank bound, reduceScatter]
    apply List.map_congr_left
    intro entry _
    apply sumTo_congr
    intro sender below
    simp only [paddedGradient_eq worldSize tensor grads sender below]
    rfl
  rw [gradientShard, shardTensor_metadata, collectivesReduceScatter, own]
  simp only [Option.bind_eq_bind, Option.bind_some, summed, List.map_id]
  split <;> rfl

section Correct

variable (worldSize : Nat) (ranks : 1 ≤ worldSize) (tensor : Tensor R) (grads : Nat → Tensor R)

theorem gradient_block_length (rank : Nat) (bound : rank < worldSize) :
    (block (shardSizeOf worldSize tensor.numel)
      (paddedGradientSum worldSize tensor grads) rank).length =
        shardSizeOf worldSize tensor.numel :=
  block_length _ worldSize _ (addLists_length _ _ _) rank bound

include ranks

theorem gradientShard_untrimmed (nonempty : 1 ≤ tensor.numel)
    (large : worldSize < 2 * tensor.numel) (rank : Nat) (bound : rank < worldSize) :
    gradientShard worldSize tensor grads rank =
      some (block (shardSizeOf worldSize tensor.numel)
        (paddedGradientSum worldSize tensor grads) rank) := by
  have room := (last_shard_kept_iff worldSize tensor.numel ranks nonempty).mpr large
  have sized := gradient_block_length worldSize tensor grads rank bound
  rw [gradientShard_eq worldSize tensor grads rank bound]
  simp only [Option.some.injEq, ite_eq_right_iff]
  intro _
  obtain ⟨stop, stopEq⟩ := Int.eq_ofNat_of_zero_le (le_trans (Int.natCast_nonneg _) room)
  rw [stopEq, sliceTo_ofNat, List.take_of_length_le]
  rw [sized]
  omega

/-- A gathered tensor meets the full gradients where the shards meet the
gradients' blocks. -/
theorem dot_gather (full : ∀ rank, rank < worldSize → (grads rank).numel = tensor.numel)
    (shards : Nat → List R)
    (sized : ∀ rank, rank < worldSize →
      (shards rank).length = shardSizeOf worldSize tensor.numel) :
    sumTo worldSize (fun rank =>
        dot ((join worldSize shards).take tensor.numel) (grads rank).data) =
      sumTo worldSize (fun rank => dot (shards rank)
        (block (shardSizeOf worldSize tensor.numel)
          (paddedGradientSum worldSize tensor grads) rank)) := by
  have layout := (padded_layout worldSize tensor.numel ranks).1
  let padded := fun sender =>
    (grads sender).data ++ List.replicate (paddingOf worldSize tensor.numel) (0 : R)
  have sizedPadded : ∀ sender, sender < worldSize →
      (padded sender).length = worldSize * shardSizeOf worldSize tensor.numel := by
    intro sender below
    have count : (grads sender).data.length = tensor.numel := full sender below
    rw [List.length_append, List.length_replicate, count, layout]
  have spread : ∀ sender, sender < worldSize →
      dot ((join worldSize shards).take tensor.numel) (grads sender).data =
        sumTo worldSize (fun rank => dot (shards rank)
          (block (shardSizeOf worldSize tensor.numel) (padded sender) rank)) := by
    intro sender below
    have count : tensor.numel = (grads sender).data.length := (full sender below).symm
    have long := join_length _ worldSize shards sized
    have whole : join worldSize (block (shardSizeOf worldSize tensor.numel) (padded sender)) =
        padded sender := by
      rw [join_block, List.take_of_length_le]
      rw [sizedPadded sender below]
    calc
      dot ((join worldSize shards).take tensor.numel) (grads sender).data =
          dot (join worldSize shards) (padded sender) := by
        rw [count]
        exact dot_take_pad _ _ _ (by omega)
      _ = dot (join worldSize shards)
          (join worldSize (block (shardSizeOf worldSize tensor.numel) (padded sender))) := by
        rw [whole]
      _ = _ := dot_join _ _ _ _ sized
        (fun rank bound => block_length _ worldSize _ (sizedPadded sender below) rank bound)
  calc
    sumTo worldSize (fun rank =>
        dot ((join worldSize shards).take tensor.numel) (grads rank).data) =
        sumTo worldSize (fun sender => sumTo worldSize (fun rank => dot (shards rank)
          (block (shardSizeOf worldSize tensor.numel) (padded sender) rank))) :=
      sumTo_congr _ _ _ spread
    _ = sumTo worldSize (fun rank => sumTo worldSize (fun sender => dot (shards rank)
          (block (shardSizeOf worldSize tensor.numel) (padded sender) rank))) :=
      sumTo_comm _ _ _
    _ = _ := by
      apply sumTo_congr
      intro rank bound
      rw [paddedGradientSum, block_addLists _ _ _ _ rank bound, dot_addLists]
      intro sender below
      exact block_length _ worldSize _ (sizedPadded sender below) rank bound

theorem backward_correct_iff (nonempty : 1 ≤ tensor.numel)
    (full : ∀ rank, rank < worldSize → (grads rank).numel = tensor.numel) :
    BackwardCorrect worldSize tensor grads ↔ worldSize < 2 * tensor.numel := by
  constructor
  · -- the length on the last rank already needs the room
    intro correct
    have last : worldSize - 1 < worldSize := by omega
    obtain ⟨gradient, run, length⟩ := correct.length (worldSize - 1) last
    rw [gradientShard_eq worldSize tensor grads _ last] at run
    simp only [Nat.sub_add_cancel ranks, if_true, Option.some.injEq] at run
    have sized := gradient_block_length worldSize tensor grads _ last
    have positive := shardSizeOf_pos worldSize tensor.numel ranks nonempty
    have uncut := sliceTo_length_eq_iff
      (block (shardSizeOf worldSize tensor.numel)
        (paddedGradientSum worldSize tensor grads) (worldSize - 1))
      ((tensor.numel : Int) - paddingOf worldSize tensor.numel)
      (List.ne_nil_of_length_pos (by omega))
    rw [shardTensor_length worldSize ranks tensor _ last, ← run] at length
    rw [sized, length] at uncut
    exact (last_shard_kept_iff worldSize tensor.numel ranks nonempty).mp (uncut.mp rfl)
  · intro large
    have untrimmed := gradientShard_untrimmed worldSize ranks tensor grads nonempty large
    refine ⟨?_, untrimmed, ?_⟩
    · intro rank bound
      refine ⟨_, untrimmed rank bound, ?_⟩
      rw [gradient_block_length worldSize tensor grads rank bound,
        shardTensor_length worldSize ranks tensor rank bound]
    · intro shards sized
      have layout := (padded_layout worldSize tensor.numel ranks).1
      have count : ((join worldSize shards).take tensor.numel).length = tensor.shape.prod := by
        rw [List.length_take, join_length _ worldSize shards sized, ← tensor.sized]
        exact Nat.min_eq_left (by rw [← layout]; exact Nat.le_add_right _ _)
      refine ⟨fun _ => ⟨tensor.shape, _, count⟩, _, ?_, untrimmed, ?_⟩
      · intro rank bound
        rw [gatherOf, shardTensor_metadata,
          collectivesAllGather_eq id id worldSize ranks tensor shards sized rank bound,
          gatheredBuffer_eq]
        simp only [Function.comp_id, List.map_id, Tensor.reshape, count, dite_true]
      · exact dot_gather worldSize ranks tensor grads full shards sized

end Correct

/-- One entry on two ranks: the last rank's gradient comes back empty. -/
theorem backward_not_correct_one_entry :
    ¬ ∀ (worldSize : Nat) (tensor : Tensor Int) (grads : Nat → Tensor Int),
      1 ≤ worldSize → 1 ≤ tensor.numel →
      (∀ rank, rank < worldSize → (grads rank).numel = tensor.numel) →
        BackwardCorrect worldSize tensor grads := by
  intro claimed
  have correct := claimed 2 ⟨[1], [5], rfl⟩ (fun _ => ⟨[1], [3], rfl⟩) (by decide) (by decide)
    (fun _ _ => rfl)
  obtain ⟨gradient, run, length⟩ := correct.length 1 (by decide)
  have empty : gradientShard 2 (⟨[1], [5], rfl⟩ : Tensor Int) (fun _ => ⟨[1], [3], rfl⟩) 1 =
      some [] := by decide
  rw [empty, Option.some.injEq] at run
  subst run
  exact absurd length (by decide)

/-- Three entries on five ranks: the padding fits in front of the last shard. -/
theorem backward_correct_three_entries :
    BackwardCorrect 5 (⟨[3], [1, 2, 3], rfl⟩ : Tensor Int) (fun _ => ⟨[3], [4, 5, 6], rfl⟩) :=
  (backward_correct_iff 5 (by decide) ⟨[3], [1, 2, 3], rfl⟩ (fun _ => ⟨[3], [4, 5, 6], rfl⟩)
    (by decide) (fun _ _ => rfl)).mpr (by decide)

end ScalarLM.Training
