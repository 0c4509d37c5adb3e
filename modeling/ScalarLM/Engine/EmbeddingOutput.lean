import Mathlib.Algebra.BigOperators.Group.List.Basic
import Mathlib.Algebra.Ring.Nat
import ScalarLM.Engine.ModelRunner

/-! Whose hidden state a batch of embedding requests is answered with. -/

namespace ScalarLM.Engine

open Adapter (Runner)

/-- The prompt of an embedding request that is computed whole in this step. -/
structure EmbeddingPrompt where
  seqId : Nat
  tokenIds : List Nat
  tokenChunkSize : Nat
  nonempty : tokenIds ≠ []
  whole : tokenIds.length ≤ tokenChunkSize

def EmbeddingPrompt.metadata (prompt : EmbeddingPrompt) : SequenceGroupMetadata where
  isPrompt := true
  seqData := [(prompt.seqId, ⟨prompt.tokenIds, [], 0, .prefill⟩)]
  samplingParams := none
  doSample := true
  tokenChunkSize := prompt.tokenChunkSize

structure EmbeddingBatch where
  prompts : List EmbeddingPrompt
  nonempty : prompts ≠ []

namespace EmbeddingBatch

variable (batch : EmbeddingBatch)

def groups : List SequenceGroupMetadata :=
  batch.prompts.map EmbeddingPrompt.metadata

def lengths : List Nat :=
  batch.prompts.map fun prompt => prompt.tokenIds.length

def offset (index : Nat) : Nat :=
  (batch.lengths.take index).sum

/-- Whatever the hidden states, there is one output for each prompt, and it is the
hidden state of one of the prompt's own positions. -/
def OwnPositions (V : Type) (runner : Runner) : Prop :=
  ∃ tokens, inputTokens runner batch.groups = some tokens ∧
    ∀ hiddenStates : List V, hiddenStates.length = tokens.length →
      ∃ outputs, buildEmbeddingSamplerOutput batch.groups hiddenStates = some outputs ∧
        outputs.length = batch.prompts.length ∧
        ∀ index < batch.prompts.length, ∃ position,
          batch.offset index ≤ position ∧ position < batch.offset (index + 1) ∧
          outputs[index]? = hiddenStates[position]?.map .embedding

variable {batch}

theorem addSeqGroup_metadata (prompt : EmbeddingPrompt) :
    addSeqGroup prompt.metadata = some prompt.tokenIds := by
  have single : ¬ (prompt.metadata.isPrompt ∧ prompt.metadata.seqData.length ≠ 1) :=
    fun failed => failed.2 rfl
  have whole : min prompt.tokenIds.length prompt.tokenChunkSize = prompt.tokenIds.length :=
    Nat.min_eq_left prompt.whole
  rw [addSeqGroup, if_neg single]
  simp [EmbeddingPrompt.metadata, computeLens, SequenceData.getTokenIds, SequenceData.getLen,
    whole]

theorem preparePrompt_metadata (prompt : EmbeddingPrompt) :
    preparePrompt prompt.metadata = some prompt.tokenIds := by
  rw [preparePrompt, if_pos ⟨rfl, rfl⟩]
  simp [EmbeddingPrompt.metadata, SequenceData.getTokenIds]

theorem collect_groups (body : SequenceGroupMetadata → Option (List Nat))
    (own : ∀ prompt : EmbeddingPrompt, body prompt.metadata = some prompt.tokenIds) :
    collect body batch.groups = some (batch.prompts.flatMap EmbeddingPrompt.tokenIds) := by
  have returns : ∀ metadata ∈ batch.groups,
      body metadata = some (metadata.seqData.flatMap fun entry => entry.2.promptTokenIds) := by
    intro metadata member
    obtain ⟨prompt, -, rfl⟩ := List.mem_map.mp member
    rw [own prompt]
    simp [EmbeddingPrompt.metadata]
  rw [collect_eq_flatMap body _ _ returns, groups, List.flatMap_map]
  simp [EmbeddingPrompt.metadata]

theorem inputTokens_groups (runner : Runner) :
    inputTokens runner batch.groups =
      some (batch.prompts.flatMap EmbeddingPrompt.tokenIds) := by
  cases runner with
  | gpu => exact collect_groups addSeqGroup addSeqGroup_metadata
  | cpu =>
      obtain ⟨first, rest, split⟩ := List.exists_cons_of_ne_nil batch.nonempty
      have head : batch.groups.head? = some first.metadata := by
        rw [groups, split, List.map_cons, List.head?_cons]
      have prompts : first.metadata.isPrompt = true := rfl
      rw [inputTokens, head, Option.bind_some, if_pos prompts]
      exact collect_groups preparePrompt preparePrompt_metadata

theorem length_tokens :
    (batch.prompts.flatMap EmbeddingPrompt.tokenIds).length = batch.lengths.sum :=
  List.length_flatMap

theorem one_le_of_mem_lengths (length : Nat) (member : length ∈ batch.lengths) : 1 ≤ length := by
  obtain ⟨prompt, -, rfl⟩ := List.mem_map.mp member
  exact List.length_pos_iff.mpr prompt.nonempty

theorem length_lengths : batch.lengths.length = batch.prompts.length :=
  List.length_map _

theorem le_offset (index : Nat) (inside : index ≤ batch.prompts.length) :
    index ≤ batch.offset index := by
  have least := List.length_le_sum_of_one_le (batch.lengths.take index) fun length member =>
    one_le_of_mem_lengths length (List.mem_of_mem_take member)
  rwa [List.length_take, length_lengths, Nat.min_eq_left inside] at least

theorem offset_le_sum (index : Nat) : batch.offset index ≤ batch.lengths.sum := by
  rw [← List.sum_take_add_sum_drop batch.lengths index]
  exact Nat.le_add_right _ _

/-- The output at an index is right when the index itself is a position of the
prompt: no position before the prompt's first will do. -/
theorem ownPositions_iff_offset_le {V : Type} [Nontrivial V] (runner : Runner) :
    batch.OwnPositions V runner ↔
      ∀ index < batch.prompts.length, batch.offset index ≤ index := by
  have tokens := @inputTokens_groups batch runner
  have count : batch.groups.length = batch.prompts.length := List.length_map _
  have enough : batch.prompts.length ≤ batch.lengths.sum :=
    (le_offset _ le_rfl).trans (offset_le_sum _)
  constructor
  · intro ⟨tokens', axis, own⟩ index inside
    obtain ⟨marked, other, differ⟩ := exists_pair_ne V
    rw [tokens, Option.some.injEq] at axis
    subst axis
    have total : ((List.range batch.lengths.sum).map fun position =>
        if position = index then marked else other).length = batch.lengths.sum := by
      rw [List.length_map, List.length_range]
    obtain ⟨outputs, built, -, found⟩ := own _ (total.trans length_tokens.symm)
    obtain ⟨position, first, last, same⟩ := found index inside
    have present : position < batch.lengths.sum := Nat.lt_of_lt_of_le last (offset_le_sum _)
    rw [buildEmbeddingSamplerOutput_eq _ _ (by rw [total, count]; exact enough), count,
      Option.some.injEq] at built
    subst built
    rw [List.getElem?_map, List.getElem?_take_of_lt inside, List.getElem?_map, List.getElem?_map,
      List.getElem?_range present,
      List.getElem?_range (Nat.lt_of_lt_of_le inside enough)] at same
    by_cases here : position = index
    · exact here ▸ first
    · simp [here, differ] at same
  · intro within
    refine ⟨_, tokens, ?_⟩
    intro hiddenStates total
    rw [length_tokens] at total
    refine ⟨_, buildEmbeddingSamplerOutput_eq _ _ (by rw [total, count]; exact enough), ?_, ?_⟩
    · rw [List.length_map, List.length_take, count, total, Nat.min_eq_left enough]
    · intro index inside
      refine ⟨index, within index inside, le_offset (index + 1) inside, ?_⟩
      rw [List.getElem?_map, List.getElem?_take_of_lt (count ▸ inside)]

theorem offset_eq_self (index : Nat) (inside : index < batch.prompts.length)
    (short : ∀ prompt ∈ batch.prompts.dropLast, prompt.tokenIds.length = 1) :
    batch.offset index = index := by
  have ones : ∀ length ∈ batch.lengths.take index, length = 1 := by
    intro length member
    rw [lengths, ← List.map_take] at member
    obtain ⟨prompt, before, rfl⟩ := List.mem_map.mp member
    apply short prompt
    rw [List.dropLast_eq_take]
    exact (List.take_subset_take_left _ (by omega)) before
  rw [offset, List.eq_replicate_of_mem ones, List.sum_replicate_nat, List.length_take,
    length_lengths, Nat.min_eq_left inside.le, Nat.mul_one]

theorem length_eq_one_of_offset_le
    (within : ∀ index < batch.prompts.length, batch.offset index ≤ index)
    (prompt : EmbeddingPrompt) (before : prompt ∈ batch.prompts.dropLast) :
    prompt.tokenIds.length = 1 := by
  obtain ⟨index, inside, rfl⟩ := List.mem_iff_getElem.mp before
  rw [List.length_dropLast] at inside
  have bound : index < batch.lengths.length := by rw [length_lengths]; omega
  have start := @le_offset batch index (by omega)
  have next := within (index + 1) (by omega)
  have entry : batch.lengths[index] = batch.prompts[index].tokenIds.length :=
    List.getElem_map _
  have positive := List.length_pos_iff.mpr (batch.prompts[index].nonempty)
  rw [offset, List.sum_take_succ _ _ bound, entry] at next
  rw [offset] at start
  rw [List.getElem_dropLast]
  omega

end EmbeddingBatch

/-- Every prompt is answered with a hidden state of its own exactly when all prompts
but the last have a single token. -/
theorem embeddings_of_own_prompt_iff {V : Type} [Nontrivial V] (batch : EmbeddingBatch)
    (runner : Runner) :
    batch.OwnPositions V runner ↔
      ∀ prompt ∈ batch.prompts.dropLast, prompt.tokenIds.length = 1 := by
  rw [EmbeddingBatch.ownPositions_iff_offset_le]
  constructor
  · intro within
    exact EmbeddingBatch.length_eq_one_of_offset_le within
  · intro short index inside
    exact (EmbeddingBatch.offset_eq_self index inside short).le

def oneThenTwoTokens : EmbeddingBatch where
  prompts := [⟨0, [11], 512, by decide, by decide⟩, ⟨1, [12, 13], 512, by decide, by decide⟩]
  nonempty := by decide

theorem embeddings_of_own_prompt_one_then_two :
    oneThenTwoTokens.OwnPositions Nat .gpu ↔
      ∀ prompt ∈ oneThenTwoTokens.prompts.dropLast, prompt.tokenIds.length = 1 :=
  embeddings_of_own_prompt_iff oneThenTwoTokens .gpu

def twoThenOneToken : EmbeddingBatch where
  prompts := [⟨0, [11, 12], 512, by decide, by decide⟩, ⟨1, [13], 512, by decide, by decide⟩]
  nonempty := by decide

/-- The second prompt is answered with the hidden state of the first one's second
token. -/
theorem embedding_of_other_prompt :
    ¬ twoThenOneToken.OwnPositions Nat .gpu ∧ ¬ twoThenOneToken.OwnPositions Nat .cpu := by
  have moved : ¬ ∀ index < twoThenOneToken.prompts.length,
      twoThenOneToken.offset index ≤ index := by decide
  constructor
  · rwa [EmbeddingBatch.ownPositions_iff_offset_le]
  · rwa [EmbeddingBatch.ownPositions_iff_offset_le]

end ScalarLM.Engine
