import ScalarLM.Engine.ModelRunner
import ScalarLM.Lib.Slice

/-! What the engine does with the output of one group. -/

namespace ScalarLM.Engine

open Slice

/-- The text that a new token adds to a sequence, and the length at which sequences
are cut off. -/
structure OutputProcessor where
  detokenizer : Option (SamplingParams → Sequence → List Char)
  maxModelLen : Nat

def findFrom (text part : List Char) (start : Nat) : Option Nat :=
  (List.range' start (text.length + 1 - start)).find? fun index =>
    part.isPrefixOf (text.drop index)

def checkStopStrings (text : List Char) (newCharCount : Nat) (params : SamplingParams) :
    Option (List Char × List Char) :=
  if newCharCount = 0 then none
  else params.stop.findSome? fun stopStr =>
    (findFrom text stopStr (text.length - (newCharCount + stopStr.length))).map fun stopIndex =>
      if params.includeStopStrInOutput then (stopStr, text.take (stopIndex + stopStr.length))
      else (stopStr, text.take stopIndex)

/-- A maximal length of 0 counts as none. -/
def getMaxModelLen (processor : OutputProcessor) (longLoraMaxLen : Option Nat) : Nat :=
  (longLoraMaxLen.filter (0 < ·)).getD processor.maxModelLen

def maybeStopSequence (processor : OutputProcessor) (seq : Sequence) (newCharCount : Nat)
    (params : SamplingParams) (longLoraMaxLen : Option Nat) : Sequence :=
  let outputLen := seq.data.outputTokenIds.length
  let lastTokenId := seq.data.getTokenIds.getLast?
  let withoutLast := if newCharCount ≠ 0 ∧ params.includeStopStrInOutput = false then
    sliceTo seq.outputText (-(newCharCount : Int)) else seq.outputText
  if outputLen < params.minTokens then seq
  else if params.ignoreEos = false ∧ lastTokenId = seq.eosTokenId then
    { seq with outputText := withoutLast, status := .finishedStopped }
  else if ∃ token ∈ lastTokenId, token ∈ params.stopTokenIds then
    { seq with
      outputText := withoutLast
      status := .finishedStopped
      stopReason := lastTokenId.map .inl }
  else match checkStopStrings seq.outputText newCharCount params with
    | some (stopStr, text) =>
        { seq with
          outputText := text
          status := .finishedStopped
          stopReason := some (.inr stopStr) }
    | none =>
        if getMaxModelLen processor longLoraMaxLen < seq.data.getLen then
          { seq with status := .finishedLengthCapped }
        else if some outputLen = params.maxTokens then
          { seq with status := .finishedLengthCapped }
        else seq

def Sequence.append (seq : Sequence) (token : Nat) : Sequence :=
  { seq with data := seq.data.appendTokenId token }

/-- A sequence after its new token: the token's text is added and may end it. -/
def detokenizeAndStop (processor : OutputProcessor) (params : SamplingParams)
    (longLoraMaxLen : Option Nat) (seq : Sequence) : Sequence :=
  let text := if params.detokenize then
    (processor.detokenizer.map fun decode => decode params seq).getD [] else []
  maybeStopSequence processor { seq with outputText := seq.outputText ++ text } text.length
    params longLoraMaxLen

/-- The sequences a group keeps and those forked off from them, for samples of which
each names its parent. A running sequence without a sample leaves the group, one with
several goes on with the last and is forked for the others. -/
def processSamples (finish : Sequence → Sequence) (samples : List SequenceOutput) :
    List Sequence → Nat → List Sequence × List Sequence
  | [], _ => ([], [])
  | seq :: rest, seqCounter =>
      if seq.status = .running then
        let children := samples.filter fun sample => sample.parentSeqId = seq.seqId
        let forks := (children.dropLast.zipIdx seqCounter).map fun entry =>
          finish ({ seq with seqId := entry.2 }.append entry.1.outputToken)
        let later := processSamples finish samples rest (seqCounter + forks.length)
        match children.getLast? with
        | none => (later.1, later.2)
        | some last => (finish (seq.append last.outputToken) :: later.1, forks ++ later.2)
      else
        let later := processSamples finish samples rest seqCounter
        (seq :: later.1, later.2)

variable {V : Type}

/-- The group after the processor has gone through its samples, with the counter that
numbers new sequences. -/
def processOutputs (processor : OutputProcessor) (isAsync : Bool) (group : SequenceGroup V)
    (samples : List SequenceOutput) (seqCounter : Nat) : Option (SequenceGroup V × Nat) :=
  match group.samplingParams with
  | none => group.seqs.head?.map fun _ => (group, seqCounter)
  | some params =>
      let finish := detokenizeAndStop processor params group.longLoraMaxLen
      if params.bestOf = 1 then
        match samples, group.seqs with
        | sample :: _, seq :: others =>
            let appended := if isAsync then seq else seq.append sample.outputToken
            some ({ group with seqs := finish appended :: others }, seqCounter)
        | _, _ => none
      else if isAsync then none
      else
        let seqs := processSamples finish samples group.seqs seqCounter
        some ({ group with seqs := seqs.1 ++ seqs.2 }, seqCounter + seqs.2.length)

/-- An embedding ends all sequences of its group. -/
def processSequenceGroupOutputs (group : SequenceGroup V) (embeddings : V) : SequenceGroup V :=
  { group with
    embeddings := some embeddings
    seqs := group.seqs.map fun seq => { seq with status := .finishedStopped } }

theorem maybeStopSequence_data (processor : OutputProcessor) (seq : Sequence)
    (newCharCount : Nat) (params : SamplingParams) (longLoraMaxLen : Option Nat) :
    (maybeStopSequence processor seq newCharCount params longLoraMaxLen).data = seq.data := by
  unfold maybeStopSequence
  dsimp only
  split
  · rfl
  split
  · rfl
  split
  · rfl
  split
  · rfl
  split
  · rfl
  split <;> rfl

@[simp] theorem detokenizeAndStop_data (processor : OutputProcessor) (params : SamplingParams)
    (longLoraMaxLen : Option Nat) (seq : Sequence) :
    (detokenizeAndStop processor params longLoraMaxLen seq).data = seq.data :=
  maybeStopSequence_data processor _ _ params longLoraMaxLen

theorem processSequenceGroupOutputs_isFinished (group : SequenceGroup V) (embeddings : V) :
    (processSequenceGroupOutputs group embeddings).isFinished = true := by
  simp [processSequenceGroupOutputs, SequenceGroup.isFinished, SequenceStatus.isFinished]

theorem processSamples_continues (finish : Sequence → Sequence)
    (kept : ∀ seq, (finish seq).data = seq.data) (samples : List SequenceOutput)
    (seqs : List Sequence) (seqCounter : Nat) (seq : Sequence) (member : seq ∈ seqs)
    (running : seq.status = .running) (sample : SequenceOutput) (given : sample ∈ samples)
    (parent : sample.parentSeqId = seq.seqId) :
    ∃ last ∈ samples, last.parentSeqId = seq.seqId ∧
      ∃ after ∈ (processSamples finish samples seqs seqCounter).1,
        after.data.outputTokenIds = seq.data.outputTokenIds ++ [last.outputToken] := by
  induction seqs generalizing seqCounter with
  | nil => exact (List.not_mem_nil member).elim
  | cons first rest ih =>
      rcases List.mem_cons.mp member with rfl | later
      · have own : samples.filter (fun sample => sample.parentSeqId = seq.seqId) ≠ [] :=
          List.ne_nil_of_mem (List.mem_filter.mpr ⟨given, decide_eq_true parent⟩)
        obtain ⟨last, found⟩ : ∃ last, (samples.filter fun sample =>
            sample.parentSeqId = seq.seqId).getLast? = some last :=
          ⟨_, List.getLast?_eq_some_getLast own⟩
        have mine := List.mem_filter.mp (List.mem_of_getLast? found)
        refine ⟨last, mine.1, of_decide_eq_true mine.2, finish (seq.append last.outputToken),
          ?_, ?_⟩
        · rw [processSamples, if_pos running]
          simp only [found]
          exact List.mem_cons_self
        · rw [kept]
          rfl
      · rw [processSamples]
        split
        · obtain ⟨last, given, parent, after, there, tokens⟩ := ih _ later
          refine ⟨last, given, parent, after, ?_, tokens⟩
          dsimp only
          split
          · exact there
          · exact List.mem_cons_of_mem _ there
        · obtain ⟨last, given, parent, after, there, tokens⟩ := ih _ later
          exact ⟨last, given, parent, after, List.mem_cons_of_mem _ there, tokens⟩

end ScalarLM.Engine
