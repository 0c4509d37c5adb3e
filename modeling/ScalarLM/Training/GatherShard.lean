import ScalarLM.Training.Collectives
import Mathlib.Tactic.Linarith

/-! Gathering the shards of a tensor gives the tensor back. -/

namespace ScalarLM.Training

open Blocks Slice

section Layout

variable (worldSize originalNumel : Nat)

theorem shardSizeOf_eq (ranks : 1 ≤ worldSize) :
    shardSizeOf worldSize originalNumel = (originalNumel + worldSize - 1) / worldSize := by
  rw [shardSizeOf, paddedNumel, Nat.mul_div_cancel _ (by omega)]

theorem padded_layout (ranks : 1 ≤ worldSize) :
    originalNumel + paddingOf worldSize originalNumel =
        worldSize * shardSizeOf worldSize originalNumel ∧
      paddingOf worldSize originalNumel < worldSize := by
  have division := Nat.div_add_mod (originalNumel + worldSize - 1) worldSize
  have remainder := Nat.mod_lt (originalNumel + worldSize - 1) (show 0 < worldSize by omega)
  have size := shardSizeOf_eq worldSize originalNumel ranks
  have padded : paddedNumel worldSize originalNumel =
      worldSize * shardSizeOf worldSize originalNumel := by
    rw [size, paddedNumel, Nat.mul_comm]
  rw [← size, ← padded] at division
  unfold paddingOf
  rw [← padded]
  constructor <;> omega

theorem shardSizeOf_pos (ranks : 1 ≤ worldSize) (nonempty : 1 ≤ originalNumel) :
    1 ≤ shardSizeOf worldSize originalNumel := by
  rw [shardSizeOf_eq worldSize originalNumel ranks]
  exact Nat.div_pos (by omega) (by omega)

theorem shardSizeOf_pos_of_padding (ranks : 1 ≤ worldSize)
    (padded : 0 < paddingOf worldSize originalNumel) :
    1 ≤ shardSizeOf worldSize originalNumel := by
  have layout := (padded_layout worldSize originalNumel ranks).1
  by_contra small
  have zero : shardSizeOf worldSize originalNumel = 0 := by omega
  rw [zero] at layout
  omega

end Layout

section Metadata

variable {α : Type}

def metadataOf (worldSize : Nat) (tensor : Tensor α) : ShardMetadata where
  originalNumel := tensor.numel
  originalShape := tensor.shape
  shardSize := shardSizeOf worldSize tensor.numel
  padding := paddingOf worldSize tensor.numel

theorem readMetadata_local (worldSize : Nat) (tensor : Tensor α) :
    readMetadata (localMetadata worldSize tensor) = metadataOf worldSize tensor := by
  have shape : sliceTo (localMetadata worldSize tensor) (-2) = [tensor.numel] ++ tensor.shape := by
    have cut := sliceTo_neg (localMetadata worldSize tensor) 2 (by decide)
    simp only [Nat.cast_ofNat] at cut
    rw [cut, localMetadata, List.take_left']
    simp
  simp only [readMetadata, metadataOf, shape, ShardMetadata.mk.injEq]
  refine ⟨rfl, rfl, ?_, ?_⟩
  · simp [localMetadata]
  · simp [localMetadata]

variable [Zero α]

theorem padWith_eq (padding : Nat) (data : List α) :
    padWith padding data = data ++ List.replicate padding 0 := by
  unfold padWith
  split
  · rfl
  · have none : padding = 0 := by omega
    simp [none]

theorem shardTensor_metadata (worldSize : Nat) (tensor : Tensor α) (rank : Nat) :
    (shardTensor worldSize (fun _ => tensor) rank).2 =
      List.replicate worldSize (metadataOf worldSize tensor) := by
  rw [shardTensor, List.eq_replicate_iff]
  refine ⟨by simp, ?_⟩
  intro row member
  obtain ⟨index, bound, rfl⟩ := List.mem_map.mp member
  rw [allgather, block_join _ _ _ (fun _ _ => rfl) index (List.mem_range.mp bound),
    readMetadata_local]

theorem shardTensor_shard (worldSize : Nat) (tensor : Tensor α) (rank : Nat) :
    (shardTensor worldSize (fun _ => tensor) rank).1 =
      block (shardSizeOf worldSize tensor.numel)
        (tensor.data ++ List.replicate (paddingOf worldSize tensor.numel) 0) rank := by
  rw [shardTensor, padWith_eq]

theorem padded_length (worldSize : Nat) (ranks : 1 ≤ worldSize) (tensor : Tensor α) :
    (tensor.data ++ List.replicate (paddingOf worldSize tensor.numel) (0 : α)).length =
      worldSize * shardSizeOf worldSize tensor.numel := by
  rw [List.length_append, List.length_replicate]
  exact (padded_layout worldSize tensor.numel ranks).1

theorem shardTensor_length (worldSize : Nat) (ranks : 1 ≤ worldSize) (tensor : Tensor α)
    (rank : Nat) (bound : rank < worldSize) :
    (shardTensor worldSize (fun _ => tensor) rank).1.length =
      shardSizeOf worldSize tensor.numel := by
  rw [shardTensor_shard]
  exact block_length _ worldSize _ (padded_length worldSize ranks tensor) rank bound

end Metadata

section Trim

variable {α : Type}

theorem trimLast_blocks (size count kept : Nat) (blocks : Nat → List α) (stop : Int)
    (sized : ∀ index, index < count + 1 → (blocks index).length = size)
    (cut : sliceTo (blocks count) stop = (blocks count).take kept) :
    ∃ trimmed, trimLast ((List.range (count + 1)).map blocks) stop = some trimmed ∧
      trimmed ≠ [] ∧ trimmed.flatten = (join (count + 1) blocks).take (count * size + kept) := by
  refine ⟨(List.range count).map blocks ++ [(blocks count).take kept], ?_, by simp, ?_⟩
  · rw [trimLast, List.range_succ, List.map_append]
    simp [cut]
  · have before : (join count blocks).length = count * size :=
      join_length size count blocks (fun i b => sized i (by omega))
    rw [join_succ, ← before, List.take_length_add_append, List.flatten_append]
    simp [join, List.flatMap_def]

theorem spanning_layout (worldSize originalNumel size padding : Nat)
    (layout : originalNumel + padding = worldSize * size) (small : padding < worldSize) :
    ∃ kept, worldSize = kept + 1 + padding / size ∧
      originalNumel + padding % size = (kept + 1) * size := by
  have division := Nat.div_add_mod padding size
  have fewer : padding / size < worldSize :=
    lt_of_le_of_lt (Nat.div_le_self padding size) small
  obtain ⟨kept, keptEq⟩ : ∃ kept, worldSize = kept + 1 + padding / size :=
    ⟨worldSize - padding / size - 1, by omega⟩
  refine ⟨kept, keptEq, ?_⟩
  apply Nat.add_right_cancel (m := size * (padding / size))
  calc
    originalNumel + padding % size + size * (padding / size) = originalNumel + padding := by
      omega
    _ = (kept + 1 + padding / size) * size := by rw [layout, ← keptEq]
    _ = (kept + 1) * size + size * (padding / size) := by ring

theorem trimSpanning_blocks (worldSize originalNumel size padding kept : Nat)
    (blocks : Nat → List α) (sized : ∀ index, index < worldSize → (blocks index).length = size)
    (positive : 1 ≤ size) (spanning : size < padding)
    (shards : worldSize = kept + 1 + padding / size)
    (count : originalNumel + padding % size = (kept + 1) * size) :
    ∃ trimmed,
      (let front := sliceTo ((List.range worldSize).map blocks) (-((padding / size : Nat) : Int))
      if 0 < padding % size ∧ 0 < front.length then
        trimLast front (-((padding % size : Nat) : Int))
      else some front) = some trimmed ∧
      trimmed ≠ [] ∧ trimmed.flatten = (join worldSize blocks).take originalNumel := by
  have remainder := Nat.mod_lt padding (show 0 < size by omega)
  have full : 1 ≤ padding / size := Nat.div_pos (by omega) (by omega)
  have front : sliceTo ((List.range worldSize).map blocks) (-((padding / size : Nat) : Int)) =
      (List.range (kept + 1)).map blocks := by
    rw [sliceTo_neg _ _ full, ← List.map_take, List.take_range]
    simp only [List.length_map, List.length_range]
    congr 2
    omega
  have sizedFront : ∀ index, index < kept + 1 → (blocks index).length = size :=
    fun index below => sized index (by omega)
  have prefixed : (join worldSize blocks).take ((kept + 1) * size) = join (kept + 1) blocks :=
    join_take size worldSize blocks sized (kept + 1) (by omega)
  simp only [front, List.length_map, List.length_range]
  by_cases partly : 0 < padding % size
  · rw [if_pos ⟨partly, by omega⟩]
    have last := sizedFront kept (by omega)
    obtain ⟨trimmed, run, nonempty, content⟩ := trimLast_blocks size kept
      (size - padding % size) blocks (-((padding % size : Nat) : Int)) sizedFront
      (by rw [sliceTo_neg _ _ partly, last])
    refine ⟨trimmed, run, nonempty, ?_⟩
    have amount : kept * size + (size - padding % size) = originalNumel := by
      rw [Nat.succ_mul] at count
      omega
    rw [content, amount, ← prefixed, List.take_take, Nat.min_eq_left (by omega)]
  · rw [if_neg (by omega)]
    refine ⟨_, rfl, by simp, ?_⟩
    have amount : originalNumel = (kept + 1) * size := by omega
    rw [amount, prefixed, join, List.flatMap_def]

theorem trimWithin_blocks (worldSize originalNumel size padding : Nat) (ranks : 1 ≤ worldSize)
    (blocks : Nat → List α) (sized : ∀ index, index < worldSize → (blocks index).length = size)
    (layout : originalNumel + padding = worldSize * size) (within : padding ≤ size) :
    ∃ trimmed, trimLast ((List.range worldSize).map blocks)
        ((originalNumel : Int) - ((worldSize : Int) - 1) * size) = some trimmed ∧
      trimmed ≠ [] ∧ trimmed.flatten = (join worldSize blocks).take originalNumel := by
  obtain ⟨count, rfl⟩ : ∃ count, worldSize = count + 1 := ⟨worldSize - 1, by omega⟩
  have product : (count + 1) * size = count * size + size := Nat.succ_mul count size
  have valid : (originalNumel : Int) - (((count + 1 : Nat) : Int) - 1) * (size : Int) =
      ((size - padding : Nat) : Int) := by
    have cast : (((count + 1 : Nat) : Int) - 1) * (size : Int) =
        ((count * size : Nat) : Int) := by
      push_cast
      ring
    rw [cast]
    omega
  rw [valid]
  obtain ⟨trimmed, run, nonempty, content⟩ := trimLast_blocks size count (size - padding)
    blocks ((size - padding : Nat) : Int) sized (sliceTo_ofNat _ _)
  refine ⟨trimmed, run, nonempty, ?_⟩
  have amount : count * size + (size - padding) = originalNumel := by omega
  rw [content, amount]

/-- Trimming takes exactly the padding off the concatenated shards, however many
whole shards it covers, and finds a shard to trim. -/
theorem trimPadding_blocks (worldSize originalNumel : Nat) (ranks : 1 ≤ worldSize)
    (shape : List Nat) (blocks : Nat → List α)
    (sized : ∀ index, index < worldSize →
      (blocks index).length = shardSizeOf worldSize originalNumel)
    (rank : Nat) (metadata : List ShardMetadata)
    (own : metadata[rank]? = some ⟨originalNumel, shape, shardSizeOf worldSize originalNumel,
      paddingOf worldSize originalNumel⟩) :
    ∃ trimmed, trimPadding ((List.range worldSize).map blocks) rank worldSize metadata =
        some trimmed ∧
      trimmed ≠ [] ∧ trimmed.flatten = (join worldSize blocks).take originalNumel := by
  obtain ⟨layout, small⟩ := padded_layout worldSize originalNumel ranks
  have whole := join_length _ worldSize blocks sized
  rw [trimPadding, own]
  simp only [Option.bind_eq_bind, Option.bind_some]
  by_cases unpadded : paddingOf worldSize originalNumel = 0
  · rw [if_pos unpadded]
    refine ⟨_, rfl, ?_, ?_⟩
    · simp only [ne_eq, List.map_eq_nil_iff, List.range_eq_nil]
      omega
    · rw [List.take_of_length_le (by omega), join, List.flatMap_def]
  · rw [if_neg unpadded]
    have positive := shardSizeOf_pos_of_padding worldSize originalNumel ranks (by omega)
    by_cases spanning : shardSizeOf worldSize originalNumel < paddingOf worldSize originalNumel
    · rw [if_pos spanning]
      obtain ⟨kept, shards, count⟩ := spanning_layout worldSize originalNumel _ _ layout small
      exact trimSpanning_blocks worldSize originalNumel _ _ kept blocks sized positive spanning
        shards count
    · rw [if_neg spanning]
      exact trimWithin_blocks worldSize originalNumel _ _ ranks blocks sized layout (by omega)

end Trim

section AllGather

variable {α β : Type} (toFloat32 : α → β) (toOrigDtype : β → α)

theorem splitShards_replicate (gathered : List α) (own : ShardMetadata) (count offset : Nat) :
    splitShards gathered offset (List.replicate count own) =
      (List.range count).map fun index =>
        (gathered.drop (offset + index * own.shardSize)).take own.shardSize := by
  induction count generalizing offset with
  | zero => rfl
  | succ count ih =>
      rw [List.replicate_succ, splitShards, ih, List.range_succ_eq_map, List.map_cons, List.map_map]
      simp only [Nat.zero_mul, Nat.add_zero, List.cons.injEq, true_and]
      apply List.map_congr_left
      intro index _
      simp only [Function.comp, Nat.succ_mul]
      congr 2
      omega

theorem splitShards_join (worldSize : Nat) (blocks : Nat → List α) (own : ShardMetadata)
    (sized : ∀ index, index < worldSize → (blocks index).length = own.shardSize) :
    splitShards (join worldSize blocks) 0 (List.replicate worldSize own) =
      (List.range worldSize).map blocks := by
  rw [splitShards_replicate]
  apply List.map_congr_left
  intro index member
  rw [Nat.zero_add]
  exact block_join _ _ _ sized index (List.mem_range.mp member)

theorem gatheredBuffer_eq (worldSize : Nat) (shards : Nat → List α) :
    gatheredBuffer toFloat32 toOrigDtype worldSize shards =
      join worldSize fun sender => (shards sender).map (toOrigDtype ∘ toFloat32) := by
  rw [gatheredBuffer, allgather, map_join]
  simp only [List.map_map]

/-- What the gather computes from any shards of the right size: the concatenation
without the padding, in the original shape. -/
theorem collectivesAllGather_eq (worldSize : Nat) (ranks : 1 ≤ worldSize) (tensor : Tensor α)
    (shards : Nat → List α)
    (sized : ∀ sender, sender < worldSize →
      (shards sender).length = shardSizeOf worldSize tensor.numel)
    (rank : Nat) (bound : rank < worldSize) :
    collectivesAllGather toFloat32 toOrigDtype worldSize shards
        (List.replicate worldSize (metadataOf worldSize tensor)) rank =
      Tensor.reshape
        ((gatheredBuffer toFloat32 toOrigDtype worldSize shards).take tensor.numel)
        tensor.shape := by
  let blocks := fun sender => (shards sender).map (toOrigDtype ∘ toFloat32)
  have sizedBlocks : ∀ index, index < worldSize →
      (blocks index).length = shardSizeOf worldSize tensor.numel := by
    intro index below
    rw [List.length_map]
    exact sized index below
  have own : (List.replicate worldSize (metadataOf worldSize tensor))[rank]? =
      some (metadataOf worldSize tensor) := by simp [bound]
  obtain ⟨trimmed, run, nonempty, content⟩ := trimPadding_blocks worldSize tensor.numel ranks
    tensor.shape blocks sizedBlocks rank _ own
  have pieces : splitShards (join worldSize blocks) 0
      (List.replicate worldSize (metadataOf worldSize tensor)) =
        (List.range worldSize).map blocks := splitShards_join worldSize blocks _ sizedBlocks
  have joined : concatenate trimmed = some trimmed.flatten := by
    cases trimmed with
    | nil => exact absurd rfl nonempty
    | cons head tail => rfl
  rw [collectivesAllGather, gatheredBuffer_eq, pieces, run, own]
  simp only [Option.bind_eq_bind, Option.bind_some, joined, content]
  rfl

variable [Zero α]

theorem join_shards (worldSize : Nat) (ranks : 1 ≤ worldSize) (tensor : Tensor α) :
    join worldSize (fun sender => (shardTensor worldSize (fun _ => tensor) sender).1) =
      tensor.data ++ List.replicate (paddingOf worldSize tensor.numel) 0 := by
  simp only [shardTensor_shard]
  rw [join_block, List.take_of_length_le]
  rw [padded_length worldSize ranks tensor]

/-- The buffer every rank receives starts with the tensor's entries, each sent
through float32. -/
theorem gatheredBuffer_shards (worldSize : Nat) (ranks : 1 ≤ worldSize) (tensor : Tensor α) :
    (gatheredBuffer toFloat32 toOrigDtype worldSize
      (fun sender => (shardTensor worldSize (fun _ => tensor) sender).1)).take tensor.numel =
        tensor.data.map (toOrigDtype ∘ toFloat32) := by
  rw [gatheredBuffer_eq, ← map_join, join_shards worldSize ranks tensor, ← List.map_take,
    Tensor.numel, List.take_left]

theorem allGather_shardTensor (worldSize : Nat) (ranks : 1 ≤ worldSize) (tensor : Tensor α)
    (rank : Nat) (bound : rank < worldSize) :
    collectivesAllGather toFloat32 toOrigDtype worldSize
        (fun sender => (shardTensor worldSize (fun _ => tensor) sender).1)
        (shardTensor worldSize (fun _ => tensor) rank).2 rank =
      some (tensor.map (toOrigDtype ∘ toFloat32)) := by
  rw [shardTensor_metadata, collectivesAllGather_eq toFloat32 toOrigDtype worldSize ranks tensor _
    (shardTensor_length worldSize ranks tensor) rank bound,
    gatheredBuffer_shards toFloat32 toOrigDtype worldSize ranks tensor]
  exact Tensor.reshape_data (tensor.map (toOrigDtype ∘ toFloat32))

/-- Every rank gets the tensor back, whatever its size and padding; on the way
trimming finds a shard to trim and leaves the tensor's entries. -/
theorem gather_undoes_shard (worldSize : Nat) (ranks : 1 ≤ worldSize) (tensor : Tensor α)
    (representable : ∀ entry ∈ tensor.data, toOrigDtype (toFloat32 entry) = entry)
    (rank : Nat) (bound : rank < worldSize) :
    let shards := fun sender => (shardTensor worldSize (fun _ => tensor) sender).1
    let metadata := (shardTensor worldSize (fun _ => tensor) rank).2
    collectivesAllGather toFloat32 toOrigDtype worldSize shards metadata rank = some tensor ∧
      ∃ trimmed,
        trimPadding
            (splitShards (gatheredBuffer toFloat32 toOrigDtype worldSize shards) 0 metadata)
            rank worldSize metadata = some trimmed ∧
          trimmed ≠ [] ∧ trimmed.flatten = tensor.data := by
  intro shards metadata
  have unchanged := (tensor.map_eq_self_iff (toOrigDtype ∘ toFloat32)).mpr representable
  have gathered := allGather_shardTensor toFloat32 toOrigDtype worldSize ranks tensor rank bound
  rw [unchanged] at gathered
  refine ⟨gathered, ?_⟩
  have sized : ∀ sender, sender < worldSize →
      ((shards sender).map (toOrigDtype ∘ toFloat32)).length =
        shardSizeOf worldSize tensor.numel := by
    intro sender below
    rw [List.length_map]
    exact shardTensor_length worldSize ranks tensor sender below
  have same : metadata = List.replicate worldSize (metadataOf worldSize tensor) :=
    shardTensor_metadata worldSize tensor rank
  have own : metadata[rank]? = some (metadataOf worldSize tensor) := by
    rw [same, List.getElem?_replicate, if_pos bound]
  have content := gatheredBuffer_shards toFloat32 toOrigDtype worldSize ranks tensor
  obtain ⟨trimmed, run, nonempty, kept⟩ := trimPadding_blocks worldSize tensor.numel ranks
    tensor.shape _ sized rank metadata own
  refine ⟨trimmed, ?_, nonempty, ?_⟩
  · rw [gatheredBuffer_eq, same, splitShards_join worldSize _ (metadataOf worldSize tensor) sized,
      ← same, run]
  · rw [kept, ← gatheredBuffer_eq]
    exact content.trans (congrArg Tensor.data unchanged)

/-- Two entries on five ranks: three of the five shards are padding. -/
theorem gather_undoes_shard_five_ranks :
    let tensor : Tensor Int := ⟨[2, 1], [7, -3], rfl⟩
    let shards := fun sender => (shardTensor 5 (fun _ => tensor) sender).1
    let metadata := (shardTensor 5 (fun _ => tensor) 4).2
    collectivesAllGather id id 5 shards metadata 4 = some tensor ∧
      ∃ trimmed,
        trimPadding (splitShards (gatheredBuffer id id 5 shards) 0 metadata) 4 5 metadata =
            some trimmed ∧
          trimmed ≠ [] ∧ trimmed.flatten = [7, -3] :=
  gather_undoes_shard id id 5 (by decide) ⟨[2, 1], [7, -3], rfl⟩ (fun _ _ => rfl) 4 (by decide)

end AllGather

end ScalarLM.Training
