import ScalarLM.Adapter.Isolation
import ScalarLM.Lib.Collect

/-! Sequences and the groups of them that the scheduler batches. -/

namespace ScalarLM.Engine

inductive SequenceStatus where
  | waiting
  | running
  | swapped
  | finishedStopped
  | finishedLengthCapped
  | finishedAborted
  | finishedIgnored
  deriving DecidableEq, Repr

def SequenceStatus.isFinished : SequenceStatus → Bool
  | .waiting | .running | .swapped => false
  | _ => true

inductive SequenceStage where
  | prefill
  | decode
  deriving DecidableEq, Repr

structure SequenceData where
  promptTokenIds : List Nat
  outputTokenIds : List Nat
  numComputedTokens : Nat
  stage : SequenceStage
  deriving DecidableEq, Repr

namespace SequenceData

variable (data : SequenceData)

def getTokenIds : List Nat :=
  data.promptTokenIds ++ data.outputTokenIds

def getLen : Nat :=
  data.promptTokenIds.length + data.outputTokenIds.length

def appendTokenId (token : Nat) : SequenceData :=
  { data with outputTokenIds := data.outputTokenIds ++ [token] }

/-- A sequence whose tokens are all computed goes over to decoding. -/
def counted (count : Nat) : SequenceData :=
  { data with
    numComputedTokens := data.numComputedTokens + count
    stage := if data.getLen - (data.numComputedTokens + count) = 0 then .decode
      else data.stage }

def updateNumComputedTokens (count : Nat) : Option SequenceData :=
  if data.numComputedTokens + count ≤ data.getLen then some (data.counted count) else none

theorem length_getTokenIds : data.getTokenIds.length = data.getLen :=
  List.length_append

end SequenceData

structure Sequence where
  seqId : Nat
  data : SequenceData
  outputText : List Char
  status : SequenceStatus
  stopReason : Option (Nat ⊕ List Char)
  eosTokenId : Option Nat
  deriving DecidableEq, Repr

/-- Sequences that have ended are not counted on. -/
def Sequence.counted (count : Nat) (seq : Sequence) : Sequence :=
  if seq.status.isFinished then seq else { seq with data := seq.data.counted count }

@[simp] theorem Sequence.counted_seqId (count : Nat) (seq : Sequence) :
    (seq.counted count).seqId = seq.seqId := by
  unfold Sequence.counted
  split <;> rfl

@[simp] theorem Sequence.counted_status (count : Nat) (seq : Sequence) :
    (seq.counted count).status = seq.status := by
  unfold Sequence.counted
  split <;> rfl

@[simp] theorem Sequence.counted_outputTokenIds (count : Nat) (seq : Sequence) :
    (seq.counted count).data.outputTokenIds = seq.data.outputTokenIds := by
  unfold Sequence.counted
  split <;> rfl

structure SamplingParams where
  bestOf : Nat
  minTokens : Nat
  maxTokens : Option Nat
  ignoreEos : Bool
  stopTokenIds : List Nat
  stop : List (List Char)
  includeStopStrInOutput : Bool
  detokenize : Bool
  deriving DecidableEq, Repr

/-- The sequences of one request. A group without sampling parameters is one of an
embedding request, and `embeddings` is what it was answered with. -/
structure SequenceGroup (V : Type) where
  seqs : List Sequence
  samplingParams : Option SamplingParams
  longLoraMaxLen : Option Nat
  embeddings : Option V
  deriving DecidableEq, Repr

namespace SequenceGroup

variable {V : Type} (group : SequenceGroup V)

def isFinished : Bool :=
  group.seqs.all fun seq => seq.status.isFinished

def running : List Sequence :=
  group.seqs.filter fun seq => seq.status = .running

def isPrefill : Bool :=
  group.seqs.head?.any fun seq => seq.data.stage = .prefill

def updateNumComputedTokens (count : Nat) : Option (SequenceGroup V) :=
  (collect (fun seq =>
    if seq.status.isFinished then some [seq]
    else (seq.data.updateNumComputedTokens count).map fun data => [{ seq with data := data }])
    group.seqs).map fun seqs => { group with seqs := seqs }

def counted (count : Nat) : SequenceGroup V :=
  { group with seqs := group.seqs.map (Sequence.counted count) }

theorem updateNumComputedTokens_eq (count : Nat)
    (within : ∀ seq ∈ group.seqs, seq.status.isFinished = false →
      seq.data.numComputedTokens + count ≤ seq.data.getLen) :
    group.updateNumComputedTokens count = some (group.counted count) := by
  rw [updateNumComputedTokens, collect_eq_flatMap _ (fun seq => [seq.counted count])]
  · rw [counted, List.map_eq_flatMap]
    rfl
  · intro seq member
    rw [Sequence.counted]
    split
    · rfl
    · rename_i active
      rw [SequenceData.updateNumComputedTokens,
        if_pos (within seq member (Bool.eq_false_iff.mpr active))]
      rfl

@[simp] theorem counted_isFinished (count : Nat) :
    (group.counted count).isFinished = group.isFinished := by
  simp [isFinished, counted, List.all_map, Function.comp_def]

end SequenceGroup

/-- What the scheduler tells the workers of a group. -/
structure SequenceGroupMetadata where
  isPrompt : Bool
  seqData : List (Nat × SequenceData)
  samplingParams : Option SamplingParams
  doSample : Bool
  tokenChunkSize : Nat
  deriving DecidableEq, Repr

/-- The metadata of a scheduled group. A prompt that is not computed to its end in
this step is not sampled. -/
def SequenceGroup.metadata {V : Type} (group : SequenceGroup V) (tokenChunkSize : Nat) :
    SequenceGroupMetadata where
  isPrompt := group.isPrefill
  seqData := group.running.map fun seq => (seq.seqId, seq.data)
  samplingParams := group.samplingParams
  doSample := ! (group.isPrefill && group.seqs.head?.any fun seq =>
    tokenChunkSize + seq.data.numComputedTokens < seq.data.getLen)
  tokenChunkSize := tokenChunkSize

end ScalarLM.Engine
