import ScalarLM.Lib.Blocks

/-! A batch of training examples on its way to blocks of tokens. -/

namespace ScalarLM.Data

open Blocks

structure Example where
  input : String
  output : String
  deriving DecidableEq, Repr

structure Encoding where
  inputIds : List Nat
  attentionMask : List Nat
  deriving DecidableEq, Repr

/-- A tokenizer, whose mask has an entry for each token. -/
structure Tokenizer where
  encode : String → Encoding
  masked : ∀ text, (encode text).attentionMask.length = (encode text).inputIds.length
  eosTokenId : Nat

inductive EosTokenId where
  | one (id : Nat)
  | many (ids : List Nat) (nonempty : ids ≠ [])

def eosToken (generationConfig : Option EosTokenId) (tokenizer : Tokenizer) : Nat :=
  match generationConfig with
  | none => tokenizer.eosTokenId
  | some (.many ids nonempty) => ids.getLast nonempty
  | some (.one id) => id

structure Columns where
  inputIds : List (List Nat)
  attentionMask : List (List Nat)
  labels : List (List Int)
  deriving DecidableEq, Repr

variable (generationConfig : Option EosTokenId) (tokenizer : Tokenizer)

def addEosToken (tokens : List Encoding) : List Encoding :=
  tokens.map fun encoding =>
    { inputIds := encoding.inputIds ++ [eosToken generationConfig tokenizer]
      attentionMask := encoding.attentionMask ++ [1] }

/-- The labels are -100 for the tokens of the input, as many as it has by itself. -/
def tokenize (batch : List Example) : Columns :=
  let tokens := addEosToken generationConfig tokenizer
    (batch.map fun row => tokenizer.encode (row.input ++ row.output))
  let inputTextLengths := batch.map fun row => (tokenizer.encode row.input).inputIds.length
  { inputIds := tokens.map Encoding.inputIds
    attentionMask := tokens.map Encoding.attentionMask
    labels := List.zipWith (fun inputTextLength inputIds =>
      List.replicate inputTextLength (-100) ++ (inputIds.drop inputTextLength).map Int.ofNat)
      inputTextLengths (tokens.map Encoding.inputIds) }

/-- A remainder is dropped unless it is all there is. -/
def totalLength (blockSize count : Nat) : Nat :=
  if blockSize ≤ count then count / blockSize * blockSize else count

def pack (blockSize : Nat) (columns : Columns) : Columns :=
  let total := totalLength blockSize columns.inputIds.flatten.length
  { inputIds := pieces blockSize total columns.inputIds.flatten
    attentionMask := pieces blockSize total columns.attentionMask.flatten
    labels := pieces blockSize total columns.labels.flatten }

def blockCount (blockSize count : Nat) : Nat :=
  (totalLength blockSize count + blockSize - 1) / blockSize

/-- Either the blocks are full and what they leave out is shorter than one, or there is
too little for a block and one takes it all. -/
theorem blockCount_cases (blockSize count : Nat) (positive : 0 < blockSize) :
    (blockSize ≤ count ∧ blockCount blockSize count = count / blockSize) ∨
      (count < blockSize ∧ count ≤ blockCount blockSize count * blockSize ∧
        blockCount blockSize count ≤ 1) := by
  rcases Nat.lt_or_ge count blockSize with short | long
  · right
    rw [blockCount, totalLength, if_neg (Nat.not_le_of_lt short)]
    rcases Nat.eq_zero_or_pos count with rfl | some_tokens
    · have none : (0 + blockSize - 1) / blockSize = 0 := Nat.div_eq_of_lt (by omega)
      rw [none]
      omega
    · have one : (count + blockSize - 1) / blockSize = 1 :=
        Nat.div_eq_of_lt_le (by omega) (by omega)
      rw [one]
      omega
  · left
    refine ⟨long, ?_⟩
    have rest : (blockSize - 1) / blockSize = 0 := Nat.div_eq_of_lt (by omega)
    rw [blockCount, totalLength, if_pos long, Nat.add_sub_assoc positive, Nat.mul_comm,
      Nat.mul_add_div positive, rest, Nat.add_zero]

def exampleTokens (row : Example) : List Nat :=
  (tokenizer.encode (row.input ++ row.output)).inputIds ++ [eosToken generationConfig tokenizer]

def inputLength (row : Example) : Nat :=
  (tokenizer.encode row.input).inputIds.length

def exampleLabels (row : Example) : List Int :=
  List.replicate (inputLength tokenizer row) (-100) ++
    ((exampleTokens generationConfig tokenizer row).drop (inputLength tokenizer row)).map Int.ofNat

def tokenStream (batch : List Example) : List Nat :=
  batch.flatMap (exampleTokens generationConfig tokenizer)

/-- Blocks of a batch whose columns go together, with nothing but a tail of the tokens
left out, labels for all but the input tokens, and one size. -/
structure Packed (blockSize : Nat) (batch : List Example) (columns : Columns) : Prop where
  masks : columns.attentionMask.map List.length = columns.inputIds.map List.length
  labelled : columns.labels.map List.length = columns.inputIds.map List.length
  stream : ∃ dropped,
    columns.inputIds.flatten ++ dropped = tokenStream generationConfig tokenizer batch ∧
      dropped.length < blockSize ∧
      ((tokenStream generationConfig tokenizer batch).length < blockSize → dropped = [])
  labels : ∀ front row back, batch = front ++ row :: back →
    ∀ place < (exampleTokens generationConfig tokenizer row).length, ∀ position,
      position = (tokenStream generationConfig tokenizer front).length + place →
      position < columns.inputIds.flatten.length →
      columns.labels.flatten[position]? =
        if place < inputLength tokenizer row then some (-100)
        else columns.inputIds.flatten[position]?.map Int.ofNat
  sized : ∀ tokens ∈ columns.inputIds, tokens.length = blockSize ∨
    (columns.inputIds = [tokens] ∧
      (tokenStream generationConfig tokenizer batch).length < blockSize)

section Packing

variable {generationConfig tokenizer}

theorem tokenize_inputIds (batch : List Example) :
    (tokenize generationConfig tokenizer batch).inputIds =
      batch.map (exampleTokens generationConfig tokenizer) := by
  simp [tokenize, addEosToken, exampleTokens, Function.comp_def]

theorem tokenize_labels (batch : List Example) :
    (tokenize generationConfig tokenizer batch).labels =
      batch.map (exampleLabels generationConfig tokenizer) := by
  simp [tokenize, addEosToken, exampleLabels, exampleTokens, inputLength, Function.comp_def,
    List.zipWith_map]

theorem tokenize_attentionMask_length (batch : List Example) :
    (tokenize generationConfig tokenizer batch).attentionMask.flatten.length =
      (tokenStream generationConfig tokenizer batch).length := by
  simp [tokenize, addEosToken, tokenStream, exampleTokens, List.length_flatMap,
    List.length_flatten, Function.comp_def, tokenizer.masked]

theorem exampleLabels_length (row : Example)
    (fits : inputLength tokenizer row ≤
      (tokenizer.encode (row.input ++ row.output)).inputIds.length) :
    (exampleLabels generationConfig tokenizer row).length =
      (exampleTokens generationConfig tokenizer row).length := by
  simp only [exampleLabels, exampleTokens, List.length_append, List.length_replicate,
    List.length_map, List.length_drop, List.length_singleton]
  omega

/-- The input of each example has no more tokens by itself than the example. -/
def InputsFit (tokenizer : Tokenizer) (batch : List Example) : Prop :=
  ∀ row ∈ batch, inputLength tokenizer row ≤
    (tokenizer.encode (row.input ++ row.output)).inputIds.length

theorem labelStream_length (batch : List Example) (fit : InputsFit tokenizer batch) :
    (batch.flatMap (exampleLabels generationConfig tokenizer)).length =
      (tokenStream generationConfig tokenizer batch).length := by
  rw [tokenStream, List.length_flatMap, List.length_flatMap]
  congr 1
  apply List.map_congr_left
  intro row member
  exact exampleLabels_length row (fit row member)

theorem exampleLabels_getElem? (row : Example) (place : Nat) :
    (exampleLabels generationConfig tokenizer row)[place]? =
      if place < inputLength tokenizer row then some (-100)
      else (exampleTokens generationConfig tokenizer row)[place]?.map Int.ofNat := by
  rw [exampleLabels]
  split
  · rename_i early
    rw [List.getElem?_append_left (by rwa [List.length_replicate]), List.getElem?_replicate,
      if_pos early]
  · rename_i late
    rw [List.getElem?_append_right (by rw [List.length_replicate]; omega), List.getElem?_map,
      List.getElem?_drop, List.length_replicate]
    congr 2
    omega

theorem labelStream_getElem? (front back : List Example) (row : Example)
    (fit : InputsFit tokenizer (front ++ row :: back)) (place : Nat)
    (inside : place < (exampleTokens generationConfig tokenizer row).length) :
    ((front ++ row :: back).flatMap (exampleLabels generationConfig tokenizer))[
        (tokenStream generationConfig tokenizer front).length + place]? =
      if place < inputLength tokenizer row then some (-100)
      else (tokenStream generationConfig tokenizer (front ++ row :: back))[
        (tokenStream generationConfig tokenizer front).length + place]?.map Int.ofNat := by
  have before := @labelStream_length generationConfig tokenizer front
    fun other member => fit other (List.mem_append_left _ member)
  have own := @exampleLabels_length generationConfig tokenizer row
    (fit row (List.mem_append_right _ List.mem_cons_self))
  have tokens : (tokenStream generationConfig tokenizer (front ++ row :: back))[
      (tokenStream generationConfig tokenizer front).length + place]? =
        (exampleTokens generationConfig tokenizer row)[place]? := by
    simp only [tokenStream, List.flatMap_append, List.flatMap_cons]
    rw [List.getElem?_append_right (Nat.le_add_right _ _), Nat.add_sub_cancel_left,
      List.getElem?_append_left inside]
  rw [tokens, ← exampleLabels_getElem? row place, List.flatMap_append, List.flatMap_cons,
    List.getElem?_append_right (by omega), before, Nat.add_sub_cancel_left,
    List.getElem?_append_left (own ▸ inside)]

theorem take_blockCount {α : Type} (blockSize : Nat) (positive : 0 < blockSize)
    (xs : List α) :
    (xs.drop (blockCount blockSize xs.length * blockSize)).length < blockSize ∧
      (xs.length < blockSize → xs.drop (blockCount blockSize xs.length * blockSize) = []) := by
  rcases blockCount_cases blockSize xs.length positive with ⟨long, count⟩ | ⟨short, all, -⟩
  · have rest := Nat.div_add_mod xs.length blockSize
    have below := Nat.mod_lt xs.length positive
    rw [Nat.mul_comm] at rest
    constructor
    · rw [List.length_drop, count]
      omega
    · intro short
      omega
  · constructor
    · rw [List.length_drop]
      omega
    · intro _
      exact List.drop_eq_nil_of_le all

theorem mem_pieces_length {α : Type} (blockSize : Nat) (positive : 0 < blockSize) (xs : List α)
    (piece : List α)
    (member : piece ∈ pieces blockSize (totalLength blockSize xs.length) xs) :
    piece.length = blockSize ∨
      (pieces blockSize (totalLength blockSize xs.length) xs = [piece] ∧
        xs.length < blockSize) := by
  obtain ⟨index, inside, rfl⟩ := List.mem_map.mp member
  rw [List.mem_range] at inside
  change index < blockCount blockSize xs.length at inside
  rcases blockCount_cases blockSize xs.length positive with ⟨long, count⟩ | ⟨short, -, one⟩
  · left
    rw [count] at inside
    have room : (index + 1) * blockSize ≤ xs.length :=
      (Nat.mul_le_mul_right blockSize inside).trans (Nat.div_mul_le_self _ _)
    rw [Nat.succ_mul] at room
    rw [block, List.length_take, List.length_drop]
    omega
  · right
    have single : blockCount blockSize xs.length = 1 := by omega
    have zero : index = 0 := by omega
    subst zero
    refine ⟨?_, short⟩
    rw [pieces, show (totalLength blockSize xs.length + blockSize - 1) / blockSize = 1 from single]
    rfl

end Packing

/-- Whatever the batch, the tokenizer and the block size, tokenizing and packing keep the
three columns together. -/
theorem tokenize_pack (generationConfig : Option EosTokenId) (tokenizer : Tokenizer)
    (blockSize : Nat) (positive : 0 < blockSize) (batch : List Example)
    (fit : InputsFit tokenizer batch) :
    Packed generationConfig tokenizer blockSize batch
      (pack blockSize (tokenize generationConfig tokenizer batch)) := by
  have ids : (tokenize generationConfig tokenizer batch).inputIds.flatten =
      tokenStream generationConfig tokenizer batch := by
    rw [tokenize_inputIds, tokenStream, List.flatMap_def]
  have labels : (tokenize generationConfig tokenizer batch).labels.flatten =
      batch.flatMap (exampleLabels generationConfig tokenizer) := by
    rw [tokenize_labels, List.flatMap_def]
  have sameLabels := @labelStream_length generationConfig tokenizer batch fit
  have covered : ∀ {α : Type} (xs : List α),
      (pieces blockSize (totalLength blockSize
        (tokenStream generationConfig tokenizer batch).length) xs).flatten =
      xs.take (blockCount blockSize (tokenStream generationConfig tokenizer batch).length *
        blockSize) := fun xs => flatten_pieces _ _ xs
  constructor
  · simp only [pack, ids]
    exact length_pieces _ _ _ _ (tokenize_attentionMask_length batch)
  · simp only [pack, ids, labels]
    exact length_pieces _ _ _ _ sameLabels
  · simp only [pack, ids]
    rw [covered]
    exact ⟨_, List.take_append_drop _ _, take_blockCount blockSize positive _⟩
  · intro front row back split place inside position same kept
    simp only [pack, ids, labels] at kept ⊢
    rw [covered, List.length_take] at kept
    have below := (Nat.lt_min.mp kept).1
    rw [covered, covered, List.getElem?_take_of_lt below, List.getElem?_take_of_lt below, same]
    subst split
    exact labelStream_getElem? front back row fit place inside
  · intro tokens member
    simp only [pack, ids] at member ⊢
    exact mem_pieces_length blockSize positive _ tokens member

def characterTokenizer : Tokenizer where
  encode := fun text =>
    { inputIds := text.toList.map Char.toNat
      attentionMask := text.toList.map fun _ => 1 }
  masked := by
    intro text
    rw [List.length_map, List.length_map]
  eosTokenId := 0

theorem tokenize_pack_two_examples :
    Packed none characterTokenizer 4 [⟨"ab", "c"⟩, ⟨"d", "efg"⟩]
      (pack 4 (tokenize none characterTokenizer [⟨"ab", "c"⟩, ⟨"d", "efg"⟩])) :=
  tokenize_pack none characterTokenizer 4 (by decide) [⟨"ab", "c"⟩, ⟨"d", "efg"⟩] (by
    intro row _
    simp [inputLength, characterTokenizer])

/-- The block of the two examples that is full; the end token of the second one is
dropped. -/
example : (pack 4 (tokenize none characterTokenizer [⟨"ab", "c"⟩, ⟨"d", "efg"⟩])).labels =
    [[-100, -100, 99, 0], [-100, 101, 102, 103]] := by decide

end ScalarLM.Data
