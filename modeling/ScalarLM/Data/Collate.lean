import ScalarLM.Data.TokenizePack
import ScalarLM.Lib.Runs

/-! From the examples of a rank to the batches of its data loader. -/

namespace ScalarLM.Data

open Blocks Runs

structure Block where
  inputIds : List Nat
  attentionMask : List Nat
  labels : List Int
  deriving DecidableEq, Repr

def Columns.rows (columns : Columns) : List Block :=
  (columns.inputIds.zip (columns.attentionMask.zip columns.labels)).map fun entry =>
    { inputIds := entry.1
      attentionMask := entry.2.1
      labels := entry.2.2 }

def columnsOf (rows : List Block) : Columns where
  inputIds := rows.map Block.inputIds
  attentionMask := rows.map Block.attentionMask
  labels := rows.map Block.labels

/-- A batched map hands its function at most a thousand rows at a time. -/
def feeds {α : Type} (rows : List α) : List (List α) :=
  pieces 1000 rows.length rows

def mapBatched {α β : Type} (function : List α → List β) (rows : List α) : List β :=
  (feeds rows).flatMap function

structure LoaderConfig where
  generationConfig : Option EosTokenId
  maxPositionEmbeddings : Nat
  maxTokenBlockSize : Nat
  batchSize : Nat
  positions : 0 < maxPositionEmbeddings
  tokens : 0 < maxTokenBlockSize
  batches : 0 < batchSize

def LoaderConfig.blockSize (config : LoaderConfig) : Nat :=
  min config.maxPositionEmbeddings config.maxTokenBlockSize

variable (config : LoaderConfig) (tokenizer : Tokenizer)

def packedDataset (rows : List Example) : List Block :=
  mapBatched (fun feed => (pack config.blockSize (columnsOf feed)).rows)
    (mapBatched (fun feed => (tokenize config.generationConfig tokenizer feed).rows) rows)

def Block.shape (block : Block) : Nat × Nat × Nat :=
  (block.inputIds.length, block.attentionMask.length, block.labels.length)

/-- Only tensors of one shape are stacked. -/
def collate (batch : List Block) : Option Columns :=
  if ∀ block ∈ batch, ∀ other ∈ batch, block.shape = other.shape then some (columnsOf batch)
  else none

/-- The batches of the loader, the last one possibly smaller. -/
def batchesOf (blocks : List Block) : List (List Block) :=
  pieces config.batchSize blocks.length blocks

def Collatable (rows : List Example) : Prop :=
  ∀ batch ∈ batchesOf config (packedDataset config tokenizer rows), collate batch ≠ none

def tokenCount (feed : List Example) : Nat :=
  (tokenStream config.generationConfig tokenizer feed).length

def labelCount (feed : List Example) : Nat :=
  (feed.flatMap (exampleLabels config.generationConfig tokenizer)).length

def feedShape (feed : List Example) : Nat × Nat × Nat :=
  (min (tokenCount config tokenizer feed) config.blockSize,
    min (tokenCount config tokenizer feed) config.blockSize,
    min (labelCount config tokenizer feed) config.blockSize)

def feedBlocks (feed : List Example) : Nat :=
  max 1 (tokenCount config tokenizer feed / config.blockSize)

section Shapes

variable {config tokenizer}

theorem LoaderConfig.blockSize_pos : 0 < config.blockSize :=
  Nat.lt_min.mpr ⟨config.positions, config.tokens⟩

def tokenizedRow (generationConfig : Option EosTokenId) (tokenizer : Tokenizer) (row : Example) :
    Block where
  inputIds := exampleTokens generationConfig tokenizer row
  attentionMask := (tokenizer.encode (row.input ++ row.output)).attentionMask ++ [1]
  labels := exampleLabels generationConfig tokenizer row

theorem tokenize_rows (feed : List Example) :
    (tokenize config.generationConfig tokenizer feed).rows =
      feed.map (tokenizedRow config.generationConfig tokenizer) := by
  rw [Columns.rows, tokenize_inputIds, tokenize_labels]
  simp [tokenize, addEosToken, tokenizedRow, Function.comp_def, List.zip_map']

theorem columnsOf_tokenizedRows (feed : List Example) :
    columnsOf (feed.map (tokenizedRow config.generationConfig tokenizer)) =
      tokenize config.generationConfig tokenizer feed := by
  simp [columnsOf, tokenize, addEosToken, tokenizedRow, exampleLabels, exampleTokens, inputLength,
    Function.comp_def, List.zipWith_map]

theorem packedDataset_eq (rows : List Example) :
    packedDataset config tokenizer rows =
      (feeds rows).flatMap fun feed =>
        (pack config.blockSize (tokenize config.generationConfig tokenizer feed)).rows := by
  have tokenized : mapBatched (fun feed =>
      (tokenize config.generationConfig tokenizer feed).rows) rows =
        rows.map (tokenizedRow config.generationConfig tokenizer) := by
    have each : (fun feed => (tokenize config.generationConfig tokenizer feed).rows) =
        List.map (tokenizedRow config.generationConfig tokenizer) := funext tokenize_rows
    have count : rows.length =
        (rows.map (tokenizedRow config.generationConfig tokenizer)).length :=
      (List.length_map _).symm
    rw [mapBatched, feeds, each, List.flatMap_def, ← pieces_map, count]
    exact flatten_pieces_all 1000 (by decide) _
  rw [packedDataset, tokenized, mapBatched, feeds, List.length_map, pieces_map, List.flatMap_map]
  simp only [columnsOf_tokenizedRows]
  rfl

theorem tokenCount_pos (feed : List Example) (nonempty : feed ≠ []) :
    0 < tokenCount config tokenizer feed := by
  obtain ⟨row, rest, rfl⟩ := List.exists_cons_of_ne_nil nonempty
  simp only [tokenCount, tokenStream, List.flatMap_cons, exampleTokens, List.length_append,
    List.length_singleton]
  omega

theorem tokenCount_le_labelCount (feed : List Example) :
    tokenCount config tokenizer feed ≤ labelCount config tokenizer feed := by
  induction feed with
  | nil => exact Nat.le_refl _
  | cons row rest ih =>
      simp only [tokenCount, labelCount, tokenStream, List.flatMap_cons, List.length_append] at ih ⊢
      have own : (exampleTokens config.generationConfig tokenizer row).length ≤
          (exampleLabels config.generationConfig tokenizer row).length := by
        simp only [exampleLabels, List.length_append, List.length_replicate, List.length_map,
          List.length_drop]
        omega
      omega

theorem pack_shapes_eq (feed : List Example) :
    (pack config.blockSize (tokenize config.generationConfig tokenizer feed)).rows.map
        Block.shape =
      (List.range (blockCount config.blockSize (tokenCount config tokenizer feed))).map
        fun index =>
          (min config.blockSize
              (tokenCount config tokenizer feed - index * config.blockSize),
            min config.blockSize
              (tokenCount config tokenizer feed - index * config.blockSize),
            min config.blockSize
              (labelCount config tokenizer feed - index * config.blockSize)) := by
  have ids : (tokenize config.generationConfig tokenizer feed).inputIds.flatten =
      tokenStream config.generationConfig tokenizer feed := by
    rw [tokenize_inputIds, tokenStream, List.flatMap_def]
  have labels : (tokenize config.generationConfig tokenizer feed).labels.flatten =
      feed.flatMap (exampleLabels config.generationConfig tokenizer) := by
    rw [tokenize_labels, List.flatMap_def]
  have masks := @tokenize_attentionMask_length config.generationConfig tokenizer feed
  simp only [Columns.rows, pack, pieces, ids, labels, List.zip_map', List.map_map,
    Function.comp_def, Block.shape, block, List.length_take, List.length_drop, masks]
  rfl

theorem blockCount_eq_feedBlocks (feed : List Example) (nonempty : feed ≠ []) :
    blockCount config.blockSize (tokenCount config tokenizer feed) =
      feedBlocks config tokenizer feed := by
  have tokens := @tokenCount_pos config tokenizer feed nonempty
  rw [feedBlocks]
  rcases blockCount_cases config.blockSize (tokenCount config tokenizer feed)
    config.blockSize_pos with ⟨long, count⟩ | ⟨short, all, one⟩
  · have full := (Nat.one_le_div_iff config.blockSize_pos).mpr long
    rw [count, Nat.max_eq_right full]
  · rw [Nat.div_eq_of_lt short, Nat.max_eq_left (Nat.zero_le 1)]
    rcases Nat.eq_zero_or_pos (blockCount config.blockSize (tokenCount config tokenizer feed))
      with none | some_blocks
    · rw [none] at all
      omega
    · omega

theorem pack_shapes (feed : List Example) (nonempty : feed ≠ []) :
    (pack config.blockSize (tokenize config.generationConfig tokenizer feed)).rows.map
        Block.shape =
      List.replicate (feedBlocks config tokenizer feed) (feedShape config tokenizer feed) := by
  have labels := @tokenCount_le_labelCount config tokenizer feed
  rw [pack_shapes_eq, List.eq_replicate_iff, List.length_map, List.length_range,
    blockCount_eq_feedBlocks feed nonempty]
  refine ⟨rfl, ?_⟩
  intro shape member
  obtain ⟨index, inside, rfl⟩ := List.mem_map.mp member
  rw [List.mem_range, ← blockCount_eq_feedBlocks feed nonempty] at inside
  rcases blockCount_cases config.blockSize (tokenCount config tokenizer feed)
    config.blockSize_pos with ⟨long, count⟩ | ⟨short, -, one⟩
  · rw [count] at inside
    have room : (index + 1) * config.blockSize ≤ tokenCount config tokenizer feed :=
      (Nat.mul_le_mul_right _ inside).trans (Nat.div_mul_le_self _ _)
    rw [Nat.succ_mul] at room
    rw [feedShape, Nat.min_eq_right long, Nat.min_eq_right (long.trans labels),
      Nat.min_eq_left (by omega), Nat.min_eq_left (by omega)]
  · have first : index = 0 := by omega
    rw [first, Nat.zero_mul, Nat.sub_zero, Nat.sub_zero, feedShape, Nat.min_comm,
      Nat.min_comm config.blockSize (labelCount config tokenizer feed)]

theorem packedDataset_shapes (rows : List Example) :
    (packedDataset config tokenizer rows).map Block.shape =
      (feeds rows).flatMap fun feed =>
        List.replicate (feedBlocks config tokenizer feed) (feedShape config tokenizer feed) := by
  rw [packedDataset_eq, List.map_flatMap, List.flatMap_def, List.flatMap_def]
  congr 1
  apply List.map_congr_left
  intro feed member
  exact pack_shapes feed (ne_nil_of_mem_pieces 1000 (by decide) rows feed member)

theorem feedBlocks_pos (feed : List Example) : 0 < feedBlocks config tokenizer feed :=
  Nat.lt_of_lt_of_le Nat.one_pos (Nat.le_max_left _ _)

theorem collate_ne_none_iff (batch : List Block) :
    collate batch ≠ none ↔
      ∀ x ∈ batch.map Block.shape, ∀ y ∈ batch.map Block.shape, x = y := by
  rw [collate]
  simp only [ne_eq, ite_eq_right_iff, reduceCtorEq, imp_false, not_not, List.forall_mem_map]

/-- Batches can be collated when the shapes change only between them. -/
theorem collatable_iff_steady (rows : List Example) :
    Collatable config tokenizer rows ↔
      Steady config.batchSize 0 ((packedDataset config tokenizer rows).map Block.shape) := by
  rw [← pieces_constant_iff config.batches, List.length_map, pieces_map]
  simp only [Collatable, batchesOf, collate_ne_none_iff, List.forall_mem_map]

theorem collatable_iff_changes (rows : List Example) :
    Collatable config tokenizer rows ↔
      ChangesAtMultiples config.batchSize (feedBlocks config tokenizer)
        (feedShape config tokenizer) 0 (feeds rows) := by
  rw [collatable_iff_steady, packedDataset_shapes,
    steady_flatMap_iff _ _ _ _ _ fun feed _ => feedBlocks_pos feed]

end Shapes

/-- Every batch has blocks of one shape exactly when any two feeds next to each other
have, or the blocks up to the first of them fill whole batches. -/
theorem batches_collate_iff (config : LoaderConfig) (tokenizer : Tokenizer)
    (rows : List Example) :
    Collatable config tokenizer rows ↔
      ∀ front feed next back, feeds rows = front ++ feed :: next :: back →
        feedShape config tokenizer feed = feedShape config tokenizer next ∨
          config.batchSize ∣ ((front ++ [feed]).map (feedBlocks config tokenizer)).sum := by
  rw [collatable_iff_changes, changesAtMultiples_iff]
  simp only [Nat.zero_add]

def fourByFour : LoaderConfig where
  generationConfig := none
  maxPositionEmbeddings := 4
  maxTokenBlockSize := 16777216
  batchSize := 4
  positions := by decide
  tokens := by decide
  batches := by decide

theorem tokenCount_replicate (count : Nat) :
    tokenCount fourByFour characterTokenizer (List.replicate count ⟨"a", "b"⟩) = count * 3 := by
  have tokens : (exampleTokens none characterTokenizer ⟨"a", "b"⟩).length = 3 := by decide
  have config : fourByFour.generationConfig = none := rfl
  rw [tokenCount, tokenStream, List.length_flatMap, List.map_replicate, List.sum_replicate_nat,
    config, tokens]

/-- The example after a thousand others has a block to itself, shorter than theirs, in
one batch with the last two of these. -/
theorem batch_of_two_shapes :
    ¬ Collatable fourByFour characterTokenizer (List.replicate 1001 ⟨"a", "b"⟩) := by
  have cut : feeds (List.replicate 1001 (⟨"a", "b"⟩ : Example)) =
      [List.replicate 1000 ⟨"a", "b"⟩, List.replicate 1 ⟨"a", "b"⟩] := by
    have length : (List.replicate 1001 (⟨"a", "b"⟩ : Example)).length = 1001 :=
      List.length_replicate
    have taken : min 1000 1001 = 1000 := by decide
    have left : 1001 - 1000 = 1 := by decide
    rw [feeds, pieces_two _ _ (by omega) (by omega), List.take_replicate, List.drop_replicate,
      taken, left]
  have size : fourByFour.blockSize = 4 := rfl
  rw [collatable_iff_changes, cut, ChangesAtMultiples]
  intro chain
  rcases chain.1 with same | divides
  · have shorter := congrArg Prod.fst same
    rw [feedShape, feedShape, tokenCount_replicate, tokenCount_replicate, size] at shorter
    exact absurd shorter (by decide)
  · rw [feedBlocks, tokenCount_replicate, size] at divides
    exact absurd divides (by decide)

end ScalarLM.Data
