import ScalarLM.Engine.OutputProcessor

/-! One step of the engine over a batch of generation and embedding requests. -/

namespace ScalarLM.Engine

open Adapter (Runner)

variable {V : Type}

/-- The engine takes the kind of a group from its output: an embedding is all that has
no `prompt_logprobs`. Groups that ended before are left alone, and tokens appended
already are not counted again. -/
def processModelOutput (processor : OutputProcessor) (isAsync : Bool)
    (metadata : SequenceGroupMetadata) (group : SequenceGroup V)
    (output : SequenceGroupOutput V) (seqCounter : Nat) : Option (SequenceGroup V × Nat) :=
  if group.isFinished then some (group, seqCounter)
  else do
    let counted ← if isAsync then some group
      else group.updateNumComputedTokens metadata.tokenChunkSize
    match output with
    | .embedding embeddings => some (processSequenceGroupOutputs counted embeddings, seqCounter)
    | .completion samples =>
        if metadata.doSample then processOutputs processor isAsync counted samples seqCounter
        else some (counted, seqCounter)

def processModelOutputs (processor : OutputProcessor) (isAsync : Bool) :
    List (SequenceGroupMetadata × SequenceGroup V) → List (SequenceGroupOutput V) → Nat →
      Option (List (SequenceGroup V))
  | [], _, _ => some []
  | _ :: _, [], _ => none
  | (metadata, group) :: rest, output :: outputs, seqCounter => do
      let processed ← processModelOutput processor isAsync metadata group output seqCounter
      let others ← processModelOutputs processor isAsync rest outputs processed.2
      some (processed.1 :: others)

def SequenceGroup.appendTo (group : SequenceGroup V) (seq : Sequence) (token : Nat) :
    SequenceGroup V :=
  { group with seqs := [seq.append token] }

/-- Ahead of the postprocessing of an asynchronous step the sampled tokens are
appended. -/
def advance (metadata : SequenceGroupMetadata) (group : SequenceGroup V)
    (output : SequenceGroupOutput V) : Option (SequenceGroup V) :=
  if group.isFinished then some group
  else do
    let counted ← group.updateNumComputedTokens metadata.tokenChunkSize
    match output with
    | .embedding _ => some counted
    | .completion samples =>
        if metadata.doSample then
          match samples, counted.seqs with
          | [sample], [seq] => some (counted.appendTo seq sample.outputToken)
          | _, _ => none
        else some counted

def advanceToNextStep : List (SequenceGroupMetadata × SequenceGroup V) →
    List (SequenceGroupOutput V) → Option (List (SequenceGroupMetadata × SequenceGroup V))
  | (metadata, group) :: rest, output :: outputs => do
      let advanced ← advance metadata group output
      let others ← advanceToNextStep rest outputs
      some ((metadata, advanced) :: others)
  | groups, _ => some groups

/-- A group that the scheduler put into a batch, with the number of its tokens to
compute. It has a running sequence, and only one as long as it is a prompt or one
sample is taken. -/
structure ScheduledSequenceGroup (V : Type) where
  seqGroup : SequenceGroup V
  tokenChunkSize : Nat
  running : seqGroup.running ≠ []
  prefill : seqGroup.isPrefill = true → ∃ seq, seqGroup.seqs = [seq]
  single : ∀ params ∈ seqGroup.samplingParams, params.bestOf = 1 → ∃ seq, seqGroup.seqs = [seq]
  positive : 0 < tokenChunkSize
  within : ∀ seq ∈ seqGroup.seqs, seq.status.isFinished = false →
    seq.data.numComputedTokens + tokenChunkSize ≤ seq.data.getLen

def ScheduledSequenceGroup.metadata (scheduled : ScheduledSequenceGroup V) :
    SequenceGroupMetadata :=
  scheduled.seqGroup.metadata scheduled.tokenChunkSize

/-- On the CPU, where prefills are not chunked, a batch has prompts only or single
decoding steps only. -/
structure ScheduledBatch (V : Type) (runner : Runner) where
  groups : List (ScheduledSequenceGroup V)
  nonempty : groups ≠ []
  uniform : runner = .cpu →
    (∀ scheduled ∈ groups, scheduled.seqGroup.isPrefill = true) ∨
      ∀ scheduled ∈ groups, scheduled.seqGroup.isPrefill = false ∧ scheduled.tokenChunkSize = 1

structure LLMEngine (V : Type) (runner : Runner) where
  model : Model V
  sampler : Sampler
  processor : OutputProcessor
  useAsyncOutputProc : Bool

variable {runner : Runner}

/-- Postprocessing is put off only when no group takes several samples. -/
def LLMEngine.allowAsyncOutputProc (engine : LLMEngine V runner) (batch : ScheduledBatch V runner) :
    Bool :=
  engine.useAsyncOutputProc && batch.groups.all fun scheduled =>
    scheduled.seqGroup.samplingParams.all fun params => params.bestOf = 1

def ScheduledBatch.pending (batch : ScheduledBatch V runner) :
    List (SequenceGroupMetadata × SequenceGroup V) :=
  batch.groups.map fun scheduled => (scheduled.metadata, scheduled.seqGroup)

def LLMEngine.process (engine : LLMEngine V runner) (batch : ScheduledBatch V runner)
    (outputs : List (SequenceGroupOutput V)) (seqCounter : Nat) :
    Option (List (SequenceGroup V)) :=
  if engine.allowAsyncOutputProc batch then
    (advanceToNextStep batch.pending outputs).bind fun advanced =>
      processModelOutputs engine.processor true advanced outputs seqCounter
  else processModelOutputs engine.processor false batch.pending outputs seqCounter

/-- The outputs of the runner and the groups they leave, or `none` when the step
raises. -/
def LLMEngine.step (engine : LLMEngine V runner) (batch : ScheduledBatch V runner)
    (seqCounter : Nat) : Option (List (SequenceGroupOutput V) × List (SequenceGroup V)) := do
  let outputs ← executeModel runner engine.model engine.sampler (batch.pending.map Prod.fst)
  let processed ← engine.process batch outputs seqCounter
  some (outputs, processed)

def Continues (samples : List SequenceOutput) (before after : SequenceGroup V) : Prop :=
  ∃ sample ∈ samples, ∃ seq ∈ before.running, sample.parentSeqId = seq.seqId ∧
    ∃ seq' ∈ after.seqs,
      seq'.data.outputTokenIds = seq.data.outputTokenIds ++ [sample.outputToken]

/-- An output of the group's own kind, and the group as such an output leaves it: an
embedding request is answered and over, one for generation has got a sampled token,
if it was sampled at all, and no embedding. -/
def OwnKind (scheduled : ScheduledSequenceGroup V) (after : SequenceGroup V) :
    SequenceGroupOutput V → Prop
  | .embedding embeddings =>
      scheduled.seqGroup.samplingParams = none ∧ after.embeddings = some embeddings ∧
        after.isFinished = true
  | .completion samples =>
      scheduled.seqGroup.samplingParams ≠ none ∧
        after.embeddings = scheduled.seqGroup.embeddings ∧
        (scheduled.metadata.doSample = true → Continues samples scheduled.seqGroup after)

/-- The step gets through and every group is answered in its own kind. -/
def LLMEngine.KeepsKindsApart (engine : LLMEngine V runner) (batch : ScheduledBatch V runner)
    (seqCounter : Nat) : Prop :=
  ∃ outputs processed, engine.step batch seqCounter = some (outputs, processed) ∧
    List.Forall₂ (fun scheduled result => OwnKind scheduled result.2 result.1)
      batch.groups (outputs.zip processed)

namespace ScheduledSequenceGroup

variable (scheduled : ScheduledSequenceGroup V)

theorem exists_running :
    ∃ seq ∈ scheduled.seqGroup.seqs, seq.status = .running ∧
      (seq.seqId, seq.data) ∈ scheduled.metadata.seqData := by
  obtain ⟨seq, member⟩ := List.exists_mem_of_ne_nil _ scheduled.running
  have both := List.mem_filter.mp member
  exact ⟨seq, both.1, of_decide_eq_true both.2, List.mem_map_of_mem member⟩

theorem not_finished : scheduled.seqGroup.isFinished = false := by
  obtain ⟨seq, member, running, -⟩ := scheduled.exists_running
  apply Bool.eq_false_iff.mpr
  intro finished
  have ended := List.all_eq_true.mp finished seq member
  rw [running] at ended
  exact Bool.false_ne_true ended

theorem seqData_single (seq : Sequence) (single : scheduled.seqGroup.seqs = [seq]) :
    scheduled.seqGroup.running = [seq] ∧
      scheduled.metadata.seqData = [(seq.seqId, seq.data)] := by
  obtain ⟨other, member, running, -⟩ := scheduled.exists_running
  rw [single, List.mem_singleton] at member
  subst member
  have own : scheduled.seqGroup.running = [other] := by
    rw [SequenceGroup.running, single, List.filter_singleton, running]
    rfl
  exact ⟨own, by rw [metadata, SequenceGroup.metadata, own]; rfl⟩

theorem seqData_within (entry : Nat × SequenceData) (member : entry ∈ scheduled.metadata.seqData) :
    entry.2.numComputedTokens + scheduled.tokenChunkSize ≤ entry.2.getLen := by
  obtain ⟨seq, running, rfl⟩ := List.mem_map.mp member
  have both := List.mem_filter.mp running
  apply scheduled.within seq both.1
  rw [of_decide_eq_true both.2]
  rfl

theorem computeLens_ne_nil (entry : Nat × SequenceData)
    (member : entry ∈ scheduled.metadata.seqData) :
    computeLens scheduled.metadata entry.2 ≠ [] := by
  have within := scheduled.seqData_within entry member
  have positive := scheduled.positive
  have chunk : scheduled.metadata.tokenChunkSize = scheduled.tokenChunkSize := rfl
  apply List.ne_nil_of_length_pos
  rw [computeLens, List.length_drop, List.length_take, SequenceData.length_getTokenIds, chunk]
  split <;> omega

theorem seqData_length (prompt : scheduled.metadata.isPrompt = true) :
    scheduled.metadata.seqData.length = 1 := by
  obtain ⟨seq, single⟩ := scheduled.prefill prompt
  rw [(scheduled.seqData_single seq single).2]
  rfl

theorem addSeqGroup_returns :
    ∃ part, addSeqGroup scheduled.metadata = some part ∧ part ≠ [] := by
  obtain ⟨seq, -, -, entry⟩ := scheduled.exists_running
  have accepted : ¬ (scheduled.metadata.isPrompt = true ∧
      scheduled.metadata.seqData.length ≠ 1) :=
    fun refused => refused.2 (scheduled.seqData_length refused.1)
  refine ⟨_, if_neg accepted, ?_⟩
  intro empty
  exact scheduled.computeLens_ne_nil _ entry (List.flatMap_eq_nil_iff.mp empty _ entry)

theorem getTokenIds_ne_nil (entry : Nat × SequenceData)
    (member : entry ∈ scheduled.metadata.seqData) : entry.2.getTokenIds ≠ [] := by
  have within := scheduled.seqData_within entry member
  have positive := scheduled.positive
  apply List.ne_nil_of_length_pos
  rw [SequenceData.length_getTokenIds]
  omega

theorem preparePrompt_returns (prompt : scheduled.seqGroup.isPrefill = true) :
    ∃ part, preparePrompt scheduled.metadata = some part ∧ part ≠ [] := by
  obtain ⟨seq, -, -, entry⟩ := scheduled.exists_running
  refine ⟨_, if_pos ⟨prompt, scheduled.seqData_length prompt⟩, ?_⟩
  intro empty
  exact scheduled.getTokenIds_ne_nil _ entry (List.flatMap_eq_nil_iff.mp empty _ entry)

theorem prepareDecode_returns (decoding : scheduled.seqGroup.isPrefill = false)
    (one : scheduled.tokenChunkSize = 1) :
    ∃ part, prepareDecode scheduled.metadata = some part ∧ part ≠ [] := by
  obtain ⟨seq, -, -, entry⟩ := scheduled.exists_running
  obtain ⟨part, collected, enough⟩ := collect_of_products
    (fun entry : Nat × SequenceData => entry.2.getTokenIds.getLast?.map fun token => [token])
    scheduled.metadata.seqData (by
      intro entry member
      rw [List.getLast?_eq_some_getLast (scheduled.getTokenIds_ne_nil entry member)]
      exact ⟨_, rfl, List.cons_ne_nil _ _⟩)
  have accepted : scheduled.metadata.isPrompt = false ∧ scheduled.metadata.tokenChunkSize = 1 :=
    ⟨decoding, one⟩
  refine ⟨part, by rw [prepareDecode, if_pos accepted]; exact collected, ?_⟩
  apply List.ne_nil_of_length_pos
  exact Nat.lt_of_lt_of_le (List.length_pos_of_mem entry) enough

end ScheduledSequenceGroup

theorem ScheduledBatch.inputTokens_returns (batch : ScheduledBatch V runner) :
    ∃ tokens, inputTokens runner (batch.groups.map ScheduledSequenceGroup.metadata) =
        some tokens ∧ batch.groups.length ≤ tokens.length := by
  have every : ∀ body : SequenceGroupMetadata → Option (List Nat),
      (∀ scheduled ∈ batch.groups, ∃ part, body scheduled.metadata = some part ∧ part ≠ []) →
      ∃ tokens, collect body (batch.groups.map ScheduledSequenceGroup.metadata) = some tokens ∧
        batch.groups.length ≤ tokens.length := by
    intro body returns
    have count : (batch.groups.map ScheduledSequenceGroup.metadata).length =
        batch.groups.length := List.length_map _
    rw [← count]
    apply collect_of_products
    intro metadata member
    obtain ⟨scheduled, present, rfl⟩ := List.mem_map.mp member
    exact returns scheduled present
  cases runner with
  | gpu => exact every addSeqGroup fun scheduled _ => scheduled.addSeqGroup_returns
  | cpu =>
      obtain ⟨first, rest, split⟩ := List.exists_cons_of_ne_nil batch.nonempty
      have head : (batch.groups.map ScheduledSequenceGroup.metadata).head? =
          some first.metadata := by
        rw [split, List.map_cons, List.head?_cons]
      have member : first ∈ batch.groups := split ▸ List.mem_cons_self
      rw [inputTokens, head, Option.bind_some]
      rcases batch.uniform rfl with prompts | decodes
      · have prompt : first.metadata.isPrompt = true := prompts first member
        rw [if_pos prompt]
        exact every preparePrompt fun scheduled present =>
          scheduled.preparePrompt_returns (prompts scheduled present)
      · have decode : ¬ first.metadata.isPrompt = true :=
          Bool.eq_false_iff.mp (decodes first member).1
        rw [if_neg decode]
        exact every prepareDecode fun scheduled present =>
          scheduled.prepareDecode_returns (decodes scheduled present).1
            (decodes scheduled present).2

def Answers (sampler : Sampler) (scheduled : ScheduledSequenceGroup V) :
    SequenceGroupOutput V → Prop
  | .embedding _ => scheduled.seqGroup.samplingParams = none
  | .completion samples =>
      scheduled.seqGroup.samplingParams ≠ none ∧
        (scheduled.metadata.doSample = true → samples = sampler.draw scheduled.metadata)

theorem ScheduledBatch.pending_metadata (batch : ScheduledBatch V runner) :
    batch.pending.map Prod.fst = batch.groups.map ScheduledSequenceGroup.metadata := by
  rw [ScheduledBatch.pending, List.map_map]
  rfl

/-- The last group decides between a hidden state for every group and samples. -/
theorem ScheduledBatch.executeModel_eq (batch : ScheduledBatch V runner) (model : Model V)
    (sampler : Sampler) :
    ∃ last ∈ batch.groups, ∃ states : List V, states.length = batch.groups.length ∧
      executeModel runner model sampler (batch.groups.map ScheduledSequenceGroup.metadata) =
        if last.seqGroup.samplingParams = none then some (states.map .embedding)
        else sampler.sample (batch.groups.map ScheduledSequenceGroup.metadata) := by
  obtain ⟨tokens, axis, enough⟩ := batch.inputTokens_returns
  let hidden := model.forward (batch.groups.map ScheduledSequenceGroup.metadata) tokens
  have covered : batch.groups.length ≤ hidden.length := by
    rw [model.length_forward]
    exact enough
  have final : (batch.groups.map ScheduledSequenceGroup.metadata).getLast? =
      some (batch.groups.getLast batch.nonempty).metadata := by
    rw [List.getLast?_map, List.getLast?_eq_some_getLast batch.nonempty, Option.map_some]
  refine ⟨_, List.getLast_mem batch.nonempty, hidden.take batch.groups.length,
    by rw [List.length_take, Nat.min_eq_left covered], ?_⟩
  have outputs := buildEmbeddingSamplerOutput_eq
    (batch.groups.map ScheduledSequenceGroup.metadata) hidden
    (by rw [List.length_map]; exact covered)
  rw [List.length_map] at outputs
  simp only [executeModel, axis, final, Option.bind_eq_bind, Option.bind_some]
  rw [← outputs]
  rfl

theorem executeModel_embeddings (batch : ScheduledBatch V runner) (model : Model V)
    (sampler : Sampler)
    (embeddings : ∀ scheduled ∈ batch.groups, scheduled.seqGroup.samplingParams = none) :
    ∃ outputs, executeModel runner model sampler
        (batch.groups.map ScheduledSequenceGroup.metadata) = some outputs ∧
      List.Forall₂ (Answers sampler) batch.groups outputs := by
  obtain ⟨last, member, states, count, executed⟩ := batch.executeModel_eq model sampler
  rw [if_pos (embeddings last member)] at executed
  refine ⟨_, executed, ?_⟩
  rw [List.forall₂_map_right_iff, List.forall₂_iff_zip]
  refine ⟨count.symm, ?_⟩
  intro scheduled _ pair
  exact embeddings scheduled (List.of_mem_zip pair).1

theorem executeModel_completions (batch : ScheduledBatch V runner) (model : Model V)
    (sampler : Sampler)
    (generations : ∀ scheduled ∈ batch.groups, scheduled.seqGroup.samplingParams ≠ none) :
    ∃ outputs, executeModel runner model sampler
        (batch.groups.map ScheduledSequenceGroup.metadata) = some outputs ∧
      List.Forall₂ (Answers sampler) batch.groups outputs := by
  obtain ⟨last, member, _, _, executed⟩ := batch.executeModel_eq model sampler
  rw [if_neg (generations last member)] at executed
  have every : (fromSamplingMetadata
      (batch.groups.map ScheduledSequenceGroup.metadata)).isSome := by
    rw [fromSamplingMetadata_isSome_iff]
    intro metadata present
    obtain ⟨scheduled, there, rfl⟩ := List.mem_map.mp present
    exact Option.isSome_iff_ne_none.mpr (generations scheduled there)
  obtain ⟨params, read⟩ := Option.isSome_iff_exists.mp every
  rw [Sampler.sample, read, Option.map_some, List.map_map] at executed
  refine ⟨_, executed, ?_⟩
  rw [List.forall₂_map_right_iff, List.forall₂_same]
  intro scheduled present
  exact ⟨generations scheduled present, fun sampled => if_pos sampled⟩

section Processing

variable (processor : OutputProcessor) (scheduled : ScheduledSequenceGroup V)

theorem ScheduledSequenceGroup.counted_eq :
    scheduled.seqGroup.updateNumComputedTokens scheduled.metadata.tokenChunkSize =
      some (scheduled.seqGroup.counted scheduled.tokenChunkSize) :=
  scheduled.seqGroup.updateNumComputedTokens_eq scheduled.tokenChunkSize scheduled.within

theorem SequenceGroup.running_counted (group : SequenceGroup V) (count : Nat) :
    (group.counted count).running = group.running.map (Sequence.counted count) := by
  simp [SequenceGroup.running, SequenceGroup.counted, List.filter_map, Function.comp_def]

theorem Continues.of_counted {samples : List SequenceOutput} {group after : SequenceGroup V}
    {count : Nat} (continues : Continues samples (group.counted count) after) :
    Continues samples group after := by
  obtain ⟨sample, given, seq, running, parent, after, present, tokens⟩ := continues
  rw [group.running_counted] at running
  obtain ⟨original, there, rfl⟩ := List.mem_map.mp running
  rw [Sequence.counted_seqId] at parent
  rw [Sequence.counted_outputTokenIds] at tokens
  exact ⟨sample, given, original, there, parent, after, present, tokens⟩

theorem processOutputs_continues (group : SequenceGroup V) (params : SamplingParams)
    (own : group.samplingParams = some params) (samples : List SequenceOutput)
    (drawn : samples ≠ [])
    (parents : ∀ sample ∈ samples, sample.parentSeqId ∈ group.running.map Sequence.seqId)
    (single : params.bestOf = 1 → ∃ seq, group.seqs = [seq]) (seqCounter : Nat) :
    ∃ after counter, processOutputs processor false group samples seqCounter =
        some (after, counter) ∧
      after.embeddings = group.embeddings ∧ Continues samples group after := by
  obtain ⟨sample, others, rfl⟩ := List.exists_cons_of_ne_nil drawn
  obtain ⟨seq, running, parent⟩ := List.mem_map.mp (parents sample List.mem_cons_self)
  have both := List.mem_filter.mp running
  simp only [processOutputs, own]
  split
  · rename_i one
    obtain ⟨only, all⟩ := single one
    rw [all, List.mem_singleton] at both
    obtain ⟨rfl, -⟩ := both
    rw [all]
    refine ⟨_, _, rfl, rfl, sample, List.mem_cons_self, seq, running, parent.symm, _,
      List.mem_cons_self, ?_⟩
    rw [detokenizeAndStop_data]
    rfl
  · obtain ⟨last, given, named, after, present, tokens⟩ := processSamples_continues
      (detokenizeAndStop processor params group.longLoraMaxLen)
      (detokenizeAndStop_data processor params _) (sample :: others) group.seqs seqCounter seq
      both.1 (of_decide_eq_true both.2) sample List.mem_cons_self parent.symm
    exact ⟨_, _, rfl, rfl, last, given, seq, running, named, after,
      List.mem_append_left _ present, tokens⟩

theorem SequenceGroup.appendTo_isFinished {group : SequenceGroup V} {seq : Sequence}
    (held : group.seqs = [seq]) (token : Nat) :
    (group.appendTo seq token).isFinished = group.isFinished := by
  rw [SequenceGroup.isFinished, SequenceGroup.isFinished, held]
  rfl

theorem processModelOutput_sampled (metadata : SequenceGroupMetadata) (group : SequenceGroup V)
    (active : ¬ group.isFinished = true) (sampled : metadata.doSample = true)
    (samples : List SequenceOutput) (seqCounter : Nat) :
    processModelOutput processor true metadata group (.completion samples) seqCounter =
      processOutputs processor true group samples seqCounter := by
  simp [processModelOutput, active, sampled]

/-- The token was appended before: what is left is the text and the end. -/
theorem processOutputs_appended (group : SequenceGroup V) (params : SamplingParams)
    (own : group.samplingParams = some params) (one : params.bestOf = 1)
    (sample : SequenceOutput) (seq : Sequence) (seqCounter : Nat) :
    processOutputs processor true (group.appendTo seq sample.outputToken) [sample] seqCounter =
      some (({ group with seqs := [detokenizeAndStop processor params group.longLoraMaxLen
        (seq.append sample.outputToken)] } : SequenceGroup V), seqCounter) := by
  simp [processOutputs, SequenceGroup.appendTo, own, one]

theorem ScheduledSequenceGroup.draw_parents (sampler : Sampler) :
    sampler.draw scheduled.metadata ≠ [] ∧
      ∀ sample ∈ sampler.draw scheduled.metadata,
        sample.parentSeqId ∈ scheduled.seqGroup.running.map Sequence.seqId := by
  obtain ⟨seq, -, -, entry⟩ := scheduled.exists_running
  refine ⟨sampler.drawn _ (List.ne_nil_of_mem entry), ?_⟩
  intro sample member
  have parent := sampler.parents _ sample member
  rwa [ScheduledSequenceGroup.metadata, SequenceGroup.metadata, List.map_map] at parent

theorem processModelOutput_ownKind (sampler : Sampler) (output : SequenceGroupOutput V)
    (answers : Answers sampler scheduled output) (seqCounter : Nat) :
    ∃ after counter, processModelOutput processor false scheduled.metadata scheduled.seqGroup
        output seqCounter = some (after, counter) ∧ OwnKind scheduled after output := by
  have active : ¬ scheduled.seqGroup.isFinished = true := by
    rw [scheduled.not_finished]
    exact Bool.false_ne_true
  rw [processModelOutput, if_neg active, if_neg Bool.false_ne_true, scheduled.counted_eq]
  cases output with
  | embedding embeddings =>
      exact ⟨_, _, rfl, answers, rfl, processSequenceGroupOutputs_isFinished _ embeddings⟩
  | completion samples =>
      obtain ⟨kind, drawn⟩ := answers
      by_cases sampled : scheduled.metadata.doSample = true
      · obtain ⟨params, own⟩ := Option.ne_none_iff_exists'.mp kind
        obtain ⟨nonempty, parents⟩ := scheduled.draw_parents sampler
        rw [drawn sampled]
        obtain ⟨after, counter, processed, same, continues⟩ := processOutputs_continues processor
          (scheduled.seqGroup.counted scheduled.tokenChunkSize) params own
          (sampler.draw scheduled.metadata) nonempty (by
            rw [SequenceGroup.running_counted, List.map_map]
            simpa [Function.comp_def] using parents)
          (by
            intro one
            obtain ⟨seq, all⟩ := scheduled.single params own one
            exact ⟨_, by rw [SequenceGroup.counted, all]; rfl⟩) seqCounter
        refine ⟨after, counter, ?_, kind, same, fun _ => continues.of_counted⟩
        simpa [sampled] using processed
      · refine ⟨scheduled.seqGroup.counted scheduled.tokenChunkSize, seqCounter, ?_, kind, rfl,
          fun given => absurd given sampled⟩
        simp [sampled]

theorem advance_ownKind (sampler : Sampler) (output : SequenceGroupOutput V)
    (answers : Answers sampler scheduled output)
    (one : ∀ params ∈ scheduled.seqGroup.samplingParams, params.bestOf = 1) :
    ∃ advanced, advance scheduled.metadata scheduled.seqGroup output = some advanced ∧
      ∀ seqCounter, ∃ after counter, processModelOutput processor true scheduled.metadata
        advanced output seqCounter = some (after, counter) ∧ OwnKind scheduled after output := by
  have active : ¬ scheduled.seqGroup.isFinished = true := by
    rw [scheduled.not_finished]
    exact Bool.false_ne_true
  have still : ¬ (scheduled.seqGroup.counted scheduled.tokenChunkSize).isFinished = true := by
    rwa [SequenceGroup.counted_isFinished]
  rw [advance, if_neg active, scheduled.counted_eq]
  cases output with
  | embedding embeddings =>
      refine ⟨_, rfl, ?_⟩
      intro seqCounter
      rw [processModelOutput, if_neg still, if_pos rfl]
      exact ⟨_, _, rfl, answers, rfl, processSequenceGroupOutputs_isFinished _ embeddings⟩
  | completion samples =>
      obtain ⟨kind, drawn⟩ := answers
      by_cases sampled : scheduled.metadata.doSample = true
      · obtain ⟨params, own⟩ := Option.ne_none_iff_exists'.mp kind
        obtain ⟨seq, all⟩ := scheduled.single params own (one params own)
        obtain ⟨running, data⟩ := scheduled.seqData_single seq all
        obtain ⟨sample, drew⟩ := List.length_eq_one_iff.mp
          (sampler.single scheduled.metadata (by rw [data]; rfl) params own (one params own))
        have parent := (scheduled.draw_parents sampler).2 sample (drew ▸ List.mem_singleton_self _)
        rw [running, List.map_singleton, List.mem_singleton] at parent
        have held : (scheduled.seqGroup.counted scheduled.tokenChunkSize).seqs =
            [seq.counted scheduled.tokenChunkSize] := by
          rw [SequenceGroup.counted, all, List.map_singleton]
        refine ⟨(scheduled.seqGroup.counted scheduled.tokenChunkSize).appendTo
          (seq.counted scheduled.tokenChunkSize) sample.outputToken, ?_, ?_⟩
        · simp only [Option.bind_eq_bind, Option.bind_some, sampled, if_true, drawn, drew, held]
        · intro seqCounter
          rw [drawn sampled, drew, processModelOutput_sampled processor _ _
            (by rwa [SequenceGroup.appendTo_isFinished held]) sampled,
            processOutputs_appended processor
              (scheduled.seqGroup.counted scheduled.tokenChunkSize) params own (one params own)]
          refine ⟨_, _, rfl, kind, rfl, fun _ => ?_⟩
          refine ⟨sample, List.mem_singleton_self _, seq, ?_, parent, _,
            List.mem_singleton_self _, ?_⟩
          · rw [running]
            exact List.mem_singleton_self _
          · rw [detokenizeAndStop_data, Sequence.append, SequenceData.appendTokenId,
              Sequence.counted_outputTokenIds]
      · refine ⟨scheduled.seqGroup.counted scheduled.tokenChunkSize, ?_, ?_⟩
        · simp [sampled]
        · intro seqCounter
          rw [processModelOutput, if_neg still, if_pos rfl]
          refine ⟨scheduled.seqGroup.counted scheduled.tokenChunkSize, seqCounter, ?_, kind, rfl,
            fun given => absurd given sampled⟩
          simp [sampled]

theorem processModelOutputs_ownKinds (isAsync : Bool)
    (items : List (ScheduledSequenceGroup V × SequenceGroup V))
    (outputs : List (SequenceGroupOutput V)) (seqCounter : Nat)
    (each : List.Forall₂ (fun item output => ∀ seqCounter, ∃ after counter,
      processModelOutput processor isAsync item.1.metadata item.2 output seqCounter =
        some (after, counter) ∧ OwnKind item.1 after output) items outputs) :
    ∃ processed, processModelOutputs processor isAsync
        (items.map fun item => (item.1.metadata, item.2)) outputs seqCounter = some processed ∧
      List.Forall₂ (fun item result => OwnKind item.1 result.2 result.1) items
        (outputs.zip processed) := by
  induction each generalizing seqCounter with
  | nil => exact ⟨[], rfl, List.Forall₂.nil⟩
  | cons here _ ih =>
      obtain ⟨after, counter, processed, own⟩ := here seqCounter
      obtain ⟨others, rest, kinds⟩ := ih counter
      refine ⟨after :: others, ?_, List.Forall₂.cons own kinds⟩
      rw [List.map_cons, processModelOutputs]
      simp only [processed, rest, Option.bind_eq_bind, Option.bind_some]

theorem advanceToNextStep_eq (groups : List (ScheduledSequenceGroup V))
    (outputs : List (SequenceGroupOutput V))
    (goal : ScheduledSequenceGroup V → SequenceGroup V → SequenceGroupOutput V → Prop)
    (each : List.Forall₂ (fun scheduled output => ∃ advanced,
      advance scheduled.metadata scheduled.seqGroup output = some advanced ∧
        goal scheduled advanced output) groups outputs) :
    ∃ items : List (ScheduledSequenceGroup V × SequenceGroup V),
      items.map Prod.fst = groups ∧
      advanceToNextStep (groups.map fun scheduled => (scheduled.metadata, scheduled.seqGroup))
        outputs = some (items.map fun item => (item.1.metadata, item.2)) ∧
      List.Forall₂ (fun item output => goal item.1 item.2 output) items outputs := by
  induction each with
  | nil => exact ⟨[], rfl, rfl, List.Forall₂.nil⟩
  | @cons scheduled output _ _ here _ ih =>
      obtain ⟨advanced, moved, reached⟩ := here
      obtain ⟨items, same, rest, all⟩ := ih
      refine ⟨(scheduled, advanced) :: items, by rw [List.map_cons, same], ?_,
        List.Forall₂.cons reached all⟩
      rw [List.map_cons, advanceToNextStep]
      simp only [moved, rest, Option.bind_eq_bind, Option.bind_some, List.map_cons]

end Processing

theorem LLMEngine.keepsKindsApart_of_answers (engine : LLMEngine V runner)
    (batch : ScheduledBatch V runner) (seqCounter : Nat)
    (answered : ∃ outputs, executeModel runner engine.model engine.sampler
        (batch.groups.map ScheduledSequenceGroup.metadata) = some outputs ∧
      List.Forall₂ (Answers engine.sampler) batch.groups outputs) :
    engine.KeepsKindsApart batch seqCounter := by
  obtain ⟨outputs, executed, answers⟩ := answered
  suffices processed : ∃ processed, engine.process batch outputs seqCounter = some processed ∧
      List.Forall₂ (fun scheduled result => OwnKind scheduled result.2 result.1)
        batch.groups (outputs.zip processed) by
    obtain ⟨processed, run, kinds⟩ := processed
    refine ⟨outputs, processed, ?_, kinds⟩
    rw [LLMEngine.step, batch.pending_metadata]
    simp only [executed, run, Option.bind_eq_bind, Option.bind_some]
  by_cases async : engine.allowAsyncOutputProc batch = true
  · have single : ∀ scheduled ∈ batch.groups, ∀ params ∈ scheduled.seqGroup.samplingParams,
        params.bestOf = 1 := by
      intro scheduled member params own
      have allowed := List.all_eq_true.mp (Bool.and_eq_true_iff.mp async).2 scheduled member
      rw [Option.mem_def.mp own] at allowed
      exact of_decide_eq_true allowed
    have each : List.Forall₂ (fun scheduled output => ∃ advanced,
        advance scheduled.metadata scheduled.seqGroup output = some advanced ∧
          ∀ seqCounter, ∃ after counter, processModelOutput engine.processor true
            scheduled.metadata advanced output seqCounter = some (after, counter) ∧
              OwnKind scheduled after output) batch.groups outputs := by
      rw [List.forall₂_iff_zip] at answers ⊢
      refine ⟨answers.1, ?_⟩
      intro scheduled output pair
      exact advance_ownKind engine.processor scheduled engine.sampler output (answers.2 pair)
        (single scheduled (List.of_mem_zip pair).1)
    obtain ⟨items, same, advanced, ready⟩ := advanceToNextStep_eq batch.groups outputs _ each
    obtain ⟨processed, run, kinds⟩ :=
      processModelOutputs_ownKinds engine.processor true items outputs seqCounter ready
    refine ⟨processed, ?_, ?_⟩
    · rw [LLMEngine.process, if_pos async, ScheduledBatch.pending, advanced]
      exact run
    · rw [← same, List.forall₂_map_left_iff]
      exact kinds
  · have each : List.Forall₂ (fun item output => ∀ seqCounter, ∃ after counter,
        processModelOutput engine.processor false
            (item : ScheduledSequenceGroup V × SequenceGroup V).1.metadata item.2 output
            seqCounter = some (after, counter) ∧ OwnKind item.1 after output)
        (batch.groups.map fun scheduled => (scheduled, scheduled.seqGroup)) outputs := by
      rw [List.forall₂_map_left_iff]
      apply answers.imp
      intro scheduled output answer
      exact processModelOutput_ownKind engine.processor scheduled engine.sampler output answer
    obtain ⟨processed, run, kinds⟩ :=
      processModelOutputs_ownKinds engine.processor false _ outputs seqCounter each
    rw [List.map_map, Function.comp_def] at run
    refine ⟨processed, ?_, ?_⟩
    · rw [LLMEngine.process, if_neg async]
      exact run
    · rwa [List.forall₂_map_left_iff] at kinds

theorem ScheduledBatch.executeModel_kind (batch : ScheduledBatch V runner) (model : Model V)
    (sampler : Sampler) (outputs : List (SequenceGroupOutput V))
    (executed : executeModel runner model sampler
      (batch.groups.map ScheduledSequenceGroup.metadata) = some outputs) :
    (∀ output ∈ outputs, ∃ embeddings, output = .embedding embeddings) ∨
      ∀ scheduled ∈ batch.groups, scheduled.seqGroup.samplingParams ≠ none := by
  obtain ⟨last, -, states, -, returned⟩ := batch.executeModel_eq model sampler
  rw [returned] at executed
  split at executed
  · left
    cases executed
    intro output member
    obtain ⟨state, -, rfl⟩ := List.mem_map.mp member
    exact ⟨state, rfl⟩
  · right
    obtain ⟨params, read, -⟩ := Option.map_eq_some_iff.mp executed
    have every := (fromSamplingMetadata_isSome_iff _).mp (Option.isSome_of_eq_some read)
    intro scheduled member
    exact Option.isSome_iff_ne_none.mp (every _ (List.mem_map_of_mem member))

theorem LLMEngine.one_kind_of_keepsKindsApart (engine : LLMEngine V runner)
    (batch : ScheduledBatch V runner) (seqCounter : Nat)
    (apart : engine.KeepsKindsApart batch seqCounter) :
    (∀ scheduled ∈ batch.groups, scheduled.seqGroup.samplingParams = none) ∨
      ∀ scheduled ∈ batch.groups, scheduled.seqGroup.samplingParams ≠ none := by
  obtain ⟨outputs, processed, step, kinds⟩ := apart
  obtain ⟨returned, executed, rest⟩ := Option.bind_eq_some_iff.mp step
  rw [batch.pending_metadata] at executed
  obtain ⟨done, -, same⟩ := Option.bind_eq_some_iff.mp rest
  cases same
  rcases batch.executeModel_kind engine.model engine.sampler outputs executed with
    embeddings | generations
  · left
    intro scheduled member
    obtain ⟨index, inside, rfl⟩ := List.mem_iff_getElem.mp member
    have within : index < (outputs.zip processed).length := kinds.length_eq ▸ inside
    have own : OwnKind batch.groups[index] (outputs.zip processed)[index].2
        (outputs.zip processed)[index].1 := kinds.get inside within
    obtain ⟨embedding, kind⟩ : ∃ embedding, (outputs.zip processed)[index].1 =
        SequenceGroupOutput.embedding embedding :=
      embeddings _ (List.of_mem_zip (List.getElem_mem within)).1
    rw [kind] at own
    exact own.1
  · exact Or.inr generations

/-- A batch is answered in kind exactly when all its groups are of one kind. -/
theorem mixed_batch_iff (engine : LLMEngine V runner) (batch : ScheduledBatch V runner)
    (seqCounter : Nat) :
    engine.KeepsKindsApart batch seqCounter ↔
      (∀ scheduled ∈ batch.groups, scheduled.seqGroup.samplingParams = none) ∨
        ∀ scheduled ∈ batch.groups, scheduled.seqGroup.samplingParams ≠ none := by
  constructor
  · exact engine.one_kind_of_keepsKindsApart batch seqCounter
  · intro one
    apply engine.keepsKindsApart_of_answers
    rcases one with embeddings | generations
    · exact executeModel_embeddings batch engine.model engine.sampler embeddings
    · exact executeModel_completions batch engine.model engine.sampler generations

def promptOf (seqId : Nat) (samplingParams : Option SamplingParams) :
    ScheduledSequenceGroup Nat where
  seqGroup :=
    { seqs := [⟨seqId, ⟨[11, 12], [], 0, .prefill⟩, [], .running, none, some 2⟩]
      samplingParams := samplingParams
      longLoraMaxLen := none
      embeddings := none }
  tokenChunkSize := 2
  running := List.cons_ne_nil _ _
  prefill := fun _ => ⟨_, rfl⟩
  single := fun _ _ _ => ⟨_, rfl⟩
  positive := by decide
  within := by
    intro seq member _
    rw [List.mem_singleton.mp member]
    exact Nat.le_refl 2

def oneSample : SamplingParams where
  bestOf := 1
  minTokens := 0
  maxTokens := some 16
  ignoreEos := false
  stopTokenIds := []
  stop := []
  includeStopStrInOutput := false
  detokenize := false

def generationThenEmbedding : ScheduledBatch Nat .gpu where
  groups := [promptOf 0 (some oneSample), promptOf 1 none]
  nonempty := List.cons_ne_nil _ _
  uniform := fun cpu => Runner.noConfusion cpu

def numberEngine : LLMEngine Nat .gpu where
  model := ⟨fun _ tokens => tokens, fun _ _ => rfl⟩
  sampler :=
    { draw := fun metadata => metadata.seqData.map fun entry => ⟨entry.1, 7⟩
      drawn := fun _ nonempty empty => nonempty (List.map_eq_nil_iff.mp empty)
      parents := by
        intro metadata sample member
        obtain ⟨entry, present, rfl⟩ := List.mem_map.mp member
        exact List.mem_map_of_mem present
      single := by
        intro metadata one params _ _
        rw [List.length_map, one] }
  processor := ⟨none, 4096⟩
  useAsyncOutputProc := false

/-- The generation request is answered with an embedding too. -/
theorem generation_answered_with_embedding :
    ¬ numberEngine.KeepsKindsApart generationThenEmbedding 0 := by
  intro apart
  rcases numberEngine.one_kind_of_keepsKindsApart generationThenEmbedding 0 apart with
    embeddings | generations
  · have none := embeddings (promptOf 0 (some oneSample)) List.mem_cons_self
    exact Option.some_ne_none _ none
  · exact generations (promptOf 1 none) (List.mem_cons_of_mem _ List.mem_cons_self) rfl

end ScalarLM.Engine
