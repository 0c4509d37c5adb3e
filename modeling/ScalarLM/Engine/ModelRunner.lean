import ScalarLM.Engine.Sequences

/-! The runners' way from a batch of groups to one output for each. -/

namespace ScalarLM.Engine

open Adapter (Runner)

def computeLens (metadata : SequenceGroupMetadata) (data : SequenceData) : List Nat :=
  let contextLen := data.numComputedTokens
  let seqLen := if metadata.isPrompt then
    min data.getLen (contextLen + metadata.tokenChunkSize) else data.getLen
  (data.getTokenIds.take seqLen).drop contextLen

def addSeqGroup (metadata : SequenceGroupMetadata) : Option (List Nat) :=
  if metadata.isPrompt ∧ metadata.seqData.length ≠ 1 then none
  else some (metadata.seqData.flatMap fun entry => computeLens metadata entry.2)

/-- The part of a batch of prompts that one group has on the CPU, where a prompt is
always computed whole. -/
def preparePrompt (metadata : SequenceGroupMetadata) : Option (List Nat) :=
  if metadata.isPrompt ∧ metadata.seqData.length = 1 then
    some (metadata.seqData.flatMap fun entry => entry.2.getTokenIds)
  else none

def prepareDecode (metadata : SequenceGroupMetadata) : Option (List Nat) :=
  if metadata.isPrompt = false ∧ metadata.tokenChunkSize = 1 then
    collect (fun entry => entry.2.getTokenIds.getLast?.map fun token => [token]) metadata.seqData
  else none

/-- The token axis of a batch: what the groups add, one after another. The first
group decides for the CPU runner whether the batch is one of prompts. -/
def inputTokens (runner : Runner) (groups : List SequenceGroupMetadata) : Option (List Nat) :=
  match runner with
  | .gpu => collect addSeqGroup groups
  | .cpu =>
      groups.head?.bind fun first =>
        if first.isPrompt then collect preparePrompt groups else collect prepareDecode groups

structure Model (V : Type) where
  forward : List SequenceGroupMetadata → List Nat → List V
  length_forward : ∀ groups tokens, (forward groups tokens).length = tokens.length

structure SequenceOutput where
  parentSeqId : Nat
  outputToken : Nat
  deriving DecidableEq, Repr

inductive SequenceGroupOutput (V : Type) where
  | completion (samples : List SequenceOutput)
  | embedding (embeddings : V)
  deriving DecidableEq, Repr

/-- The tokens drawn for a group, each as the continuation of one of its sequences.
A group that has sequences gets at least one, and just one when it has one sequence
and takes one sample. -/
structure Sampler where
  draw : SequenceGroupMetadata → List SequenceOutput
  drawn : ∀ metadata, metadata.seqData ≠ [] → draw metadata ≠ []
  parents : ∀ metadata, ∀ sample ∈ draw metadata,
    sample.parentSeqId ∈ metadata.seqData.map Prod.fst
  single : ∀ metadata, metadata.seqData.length = 1 →
    ∀ params ∈ metadata.samplingParams, params.bestOf = 1 → (draw metadata).length = 1

variable {V : Type}

/-- The sampling tensors are filled from the parameters of every group: there is no
attribute to read where they are missing. -/
def fromSamplingMetadata (groups : List SequenceGroupMetadata) : Option (List SamplingParams) :=
  collect (fun metadata => metadata.samplingParams.map fun params => [params]) groups

def Sampler.sample (sampler : Sampler) (groups : List SequenceGroupMetadata) :
    Option (List (SequenceGroupOutput V)) :=
  (fromSamplingMetadata groups).map fun _ =>
    groups.map fun metadata =>
      .completion (if metadata.doSample then sampler.draw metadata else [])

def buildEmbeddingSamplerOutput (groups : List SequenceGroupMetadata) (hiddenStates : List V) :
    Option (List (SequenceGroupOutput V)) :=
  collect (fun index => hiddenStates[index]?.map fun state => [.embedding state])
    (List.range groups.length)

/-- One output for each group, or `none` when the step raises. The last group alone
decides which kind of output all of them get. -/
def executeModel (runner : Runner) (model : Model V) (sampler : Sampler)
    (groups : List SequenceGroupMetadata) : Option (List (SequenceGroupOutput V)) := do
  let tokens ← inputTokens runner groups
  let last ← groups.getLast?
  if last.samplingParams = none then
    buildEmbeddingSamplerOutput groups (model.forward groups tokens)
  else sampler.sample groups

theorem flatMap_range_getElem? {W : Type} (xs : List V) (f : V → W) (count : Nat) :
    (List.range count).flatMap (fun index => (xs[index]?.map f).toList) =
      (xs.take count).map f := by
  induction count with
  | zero => rfl
  | succ count ih =>
      rw [List.range_succ, List.flatMap_append, ih, List.flatMap_singleton, List.take_add_one,
        List.map_append]
      cases xs[count]? <;> rfl

theorem buildEmbeddingSamplerOutput_eq (groups : List SequenceGroupMetadata)
    (hiddenStates : List V) (enough : groups.length ≤ hiddenStates.length) :
    buildEmbeddingSamplerOutput groups hiddenStates =
      some ((hiddenStates.take groups.length).map .embedding) := by
  have returns : ∀ index ∈ List.range groups.length,
      (hiddenStates[index]?.map fun state => [SequenceGroupOutput.embedding state]) =
        some (hiddenStates[index]?.map SequenceGroupOutput.embedding).toList := by
    intro index member
    have inside : index < hiddenStates.length :=
      Nat.lt_of_lt_of_le (List.mem_range.mp member) enough
    rw [List.getElem?_eq_getElem inside]
    rfl
  rw [buildEmbeddingSamplerOutput, collect_eq_flatMap _ _ _ returns, flatMap_range_getElem?]

theorem fromSamplingMetadata_isSome_iff (groups : List SequenceGroupMetadata) :
    (fromSamplingMetadata groups).isSome ↔
      ∀ metadata ∈ groups, metadata.samplingParams.isSome := by
  rw [fromSamplingMetadata, collect_isSome_iff]
  simp only [Option.isSome_map]

end ScalarLM.Engine
