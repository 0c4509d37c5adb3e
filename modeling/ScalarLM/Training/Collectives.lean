import ScalarLM.Lib.Blocks
import ScalarLM.Lib.Slice

/-! The tensor sharding and the two collectives of the FSDP strategy.

Every function that calls into MPI is modelled for all ranks at once: an
argument of type `Nat → _` is what each rank passes to the collective, and the
result is what the given rank gets back. -/

namespace ScalarLM.Training

open Blocks Slice

/-- A contiguous tensor: its entries in row-major order, as many as its shape
asks for. A zero-dimensional tensor has the empty shape and one entry. -/
structure Tensor (α : Type) where
  shape : List Nat
  data : List α
  sized : data.length = shape.prod

namespace Tensor

variable {α : Type}

def numel (tensor : Tensor α) : Nat := tensor.data.length

def reshape (data : List α) (shape : List Nat) : Option (Tensor α) :=
  if sized : data.length = shape.prod then some ⟨shape, data, sized⟩ else none

def map {β : Type} (f : α → β) (tensor : Tensor α) : Tensor β where
  shape := tensor.shape
  data := tensor.data.map f
  sized := by rw [List.length_map, tensor.sized]

def vector (data : List α) : Tensor α where
  shape := [data.length]
  data := data
  sized := by simp

theorem map_eq_self_iff (f : α → α) (tensor : Tensor α) :
    tensor.map f = tensor ↔ ∀ entry ∈ tensor.data, f entry = entry := by
  cases tensor with
  | mk shape data sized =>
      simp only [map, mk.injEq, true_and]
      constructor
      · intro same entry member
        exact List.map_inj_left.mp (same.trans (List.map_id data).symm) entry member
      · intro fixed
        exact (List.map_congr_left fixed).trans (List.map_id data)

@[simp] theorem reshape_data (tensor : Tensor α) :
    reshape tensor.data tensor.shape = some tensor := by
  simp [reshape, tensor.sized]

end Tensor

structure ShardMetadata where
  originalNumel : Nat
  originalShape : List Nat
  shardSize : Nat
  padding : Nat
  deriving DecidableEq, Repr

def allgather {α : Type} (worldSize : Nat) (send : Nat → List α) : List α :=
  join worldSize send

def reduceScatter {β : Type} [CommSemiring β] (worldSize count : Nat)
    (send : Nat → List β) (rank : Nat) : List β :=
  addLists count worldSize fun sender => block count (send sender) rank

def paddedNumel (worldSize originalNumel : Nat) : Nat :=
  (originalNumel + worldSize - 1) / worldSize * worldSize

def paddingOf (worldSize originalNumel : Nat) : Nat :=
  paddedNumel worldSize originalNumel - originalNumel

def shardSizeOf (worldSize originalNumel : Nat) : Nat :=
  paddedNumel worldSize originalNumel / worldSize

section Shard

variable {α : Type} [Zero α]

def padWith (padding : Nat) (data : List α) : List α :=
  if 0 < padding then data ++ List.replicate padding 0 else data

def localMetadata (worldSize : Nat) (tensor : Tensor α) : List Nat :=
  [tensor.numel] ++ tensor.shape ++
    [shardSizeOf worldSize tensor.numel, paddingOf worldSize tensor.numel]

/-- One row of the gathered metadata: `meta[0]`, `meta[1:-2]`, `meta[-2]` and
`meta[-1]`. -/
def readMetadata (row : List Nat) : ShardMetadata where
  originalNumel := row.getD 0 0
  originalShape := (sliceTo row (-2)).drop 1
  shardSize := row.getD (row.length - 2) 0
  padding := row.getD (row.length - 1) 0

def shardTensor (worldSize : Nat) (tensors : Nat → Tensor α) (rank : Nat) :
    List α × List ShardMetadata :=
  let tensor := tensors rank
  let tensorPadded := padWith (paddingOf worldSize tensor.numel) tensor.data
  let shard := block (shardSizeOf worldSize tensor.numel) tensorPadded rank
  let allMetadata := allgather worldSize fun sender => localMetadata worldSize (tensors sender)
  let width := (localMetadata worldSize tensor).length
  (shard, (List.range worldSize).map fun row => readMetadata (block width allMetadata row))

end Shard

section Gather

variable {α β : Type}

/-- `xs[-1] = xs[-1][:stop]`, an index error on the empty list. -/
def trimLast (tensors : List (List α)) (stop : Int) : Option (List (List α)) :=
  tensors.getLast?.map fun last => tensors.dropLast ++ [sliceTo last stop]

def trimPadding (allTensors : List (List α)) (rank worldSize : Nat)
    (metadata : List ShardMetadata) : Option (List (List α)) := do
  let own ← metadata[rank]?
  if own.padding = 0 then
    some allTensors
  else if own.shardSize < own.padding then
    let fullyPaddedTensors := own.padding / own.shardSize
    let allTensors := sliceTo allTensors (-(fullyPaddedTensors : Int))
    let remainingPadding := own.padding % own.shardSize
    if 0 < remainingPadding ∧ 0 < allTensors.length then
      trimLast allTensors (-(remainingPadding : Int))
    else
      some allTensors
  else
    trimLast allTensors
      ((own.originalNumel : Int) - ((worldSize : Int) - 1) * own.shardSize)

/-- The gathered buffer cut into the ranks' shards, from a running offset. -/
def splitShards (gathered : List α) : Nat → List ShardMetadata → List (List α)
  | _, [] => []
  | offset, own :: rest =>
      (gathered.drop offset).take own.shardSize ::
        splitShards gathered (offset + own.shardSize) rest

/-- Concatenating no tensors at all is an error. -/
def concatenate : List (List α) → Option (List α)
  | [] => none
  | tensors => some tensors.flatten

variable (toFloat32 : α → β) (toOrigDtype : β → α)

def gatheredBuffer (worldSize : Nat) (shards : Nat → List α) : List α :=
  (allgather worldSize fun sender => (shards sender).map toFloat32).map toOrigDtype

def collectivesAllGather (worldSize : Nat) (shards : Nat → List α)
    (metadata : List ShardMetadata) (rank : Nat) : Option (Tensor α) := do
  let gathered := gatheredBuffer toFloat32 toOrigDtype worldSize shards
  let allTensors ← trimPadding (splitShards gathered 0 metadata) rank worldSize metadata
  let concatenated ← concatenate allTensors
  let own ← metadata[rank]?
  Tensor.reshape concatenated own.originalShape

/-- What a rank hands to the reduce-scatter: its gradient, padded as the forward
pass padded the parameter. -/
def paddedGradient [Zero α] (metadata : List ShardMetadata) (tensors : Nat → Tensor α)
    (rank : Nat) : List β :=
  match metadata[rank]? with
  | none => []
  | some own => (padWith own.padding (tensors rank).data).map toFloat32

def collectivesReduceScatter [Zero α] [CommSemiring β] (worldSize : Nat)
    (tensors : Nat → Tensor α) (metadata : List ShardMetadata) (rank : Nat) :
    Option (List α) := do
  let own ← metadata[rank]?
  let localShard :=
    (reduceScatter worldSize own.shardSize (paddedGradient toFloat32 metadata tensors) rank).map
      toOrigDtype
  if rank + 1 = worldSize then
    some (sliceTo localShard ((own.originalNumel : Int) - own.padding))
  else
    some localShard

end Gather

end ScalarLM.Training
