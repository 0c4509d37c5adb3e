import ScalarLM.Data.Collate
import ScalarLM.Lib.Restart

/-! The data loader of a rank, over as many epochs as the training takes. -/

namespace ScalarLM.Data

open Blocks Restart Runs

structure ShuffledDataset where
  rows : List Example
  order : Nat → List Example
  shuffled : ∀ epoch, (order epoch).Perm rows

structure DataParallel where
  worldSize : Nat
  rank : Nat
  inside : rank < worldSize

/-- The examples at every place that leaves the rank when divided by the world size. -/
def splitDatasetByNode (parallel : DataParallel) (rows : List Example) : List Example :=
  (rows.zipIdx.filter fun entry => entry.2 % parallel.worldSize = parallel.rank).map Prod.fst

inductive NextBatch where
  | batch (columns : Columns)
  | sizeMismatch
  | stopIteration
  deriving DecidableEq, Repr

section Loading

variable (config : LoaderConfig) (tokenizer : Tokenizer) (parallel : DataParallel)
  (dataset : ShuffledDataset)

def loadEpoch (epoch : Nat) : List (List Block) :=
  batchesOf config
    (packedDataset config tokenizer (splitDatasetByNode parallel (dataset.order epoch)))

def initialLoader : State (List Block) :=
  ⟨0, loadEpoch config tokenizer parallel dataset 0⟩

/-- `__next__` of the data loader. -/
def nextBatch (loader : State (List Block)) : NextBatch × State (List Block) :=
  match next (loadEpoch config tokenizer parallel dataset) loader with
  | (none, loader') => (.stopIteration, loader')
  | (some batch, loader') =>
      match collate batch with
      | none => (.sizeMismatch, loader')
      | some columns => (.batch columns, loader')

/-- The steps of the training loop, or `none` when one of them has no batch. -/
def trainingSteps : Nat → State (List Block) → Option (State (List Block))
  | 0, loader => some loader
  | count + 1, loader =>
      match nextBatch config tokenizer parallel dataset loader with
      | (.batch _, loader') => trainingSteps count loader'
      | _ => none

end Loading

section Shares

variable {config : LoaderConfig} {tokenizer : Tokenizer} {parallel : DataParallel}
  {dataset : ShuffledDataset}

theorem trainingSteps_eq (count : Nat) (loader : State (List Block)) :
    trainingSteps config tokenizer parallel dataset count loader =
      steps (loadEpoch config tokenizer parallel dataset)
        (fun batch => (collate batch).isSome = true) count loader := by
  induction count generalizing loader with
  | zero => rfl
  | succ count ih =>
      rw [trainingSteps, steps, nextBatch]
      rcases next (loadEpoch config tokenizer parallel dataset) loader with ⟨_ | batch, loader'⟩
      · rfl
      · dsimp only
        cases collate batch with
        | none => rfl
        | some columns => exact (ih loader').trans (if_pos rfl).symm

theorem splitDatasetByNode_ne_nil_iff (rows : List Example) :
    splitDatasetByNode parallel rows ≠ [] ↔ parallel.rank < rows.length := by
  rw [splitDatasetByNode, ne_eq, List.map_eq_nil_iff]
  constructor
  · intro some_rows
    obtain ⟨⟨row, index⟩, member⟩ := List.exists_mem_of_ne_nil _ some_rows
    obtain ⟨there, mine⟩ := List.mem_filter.mp member
    have inside := (List.mem_zipIdx there).2.1
    have below := Nat.mod_le index parallel.worldSize
    rw [of_decide_eq_true mine] at below
    omega
  · intro below
    apply List.ne_nil_of_mem (a := (rows[parallel.rank], parallel.rank))
    refine List.mem_filter.mpr ⟨?_, decide_eq_true (Nat.mod_eq_of_lt parallel.inside)⟩
    rw [List.mem_zipIdx_iff_getElem?]
    exact List.getElem?_eq_getElem below

theorem packedDataset_eq_nil_iff (rows : List Example) :
    packedDataset config tokenizer rows = [] ↔ rows = [] := by
  rw [← List.map_eq_nil_iff (f := Block.shape), packedDataset_shapes, List.flatMap_eq_nil_iff,
    ← pieces_eq_nil_iff 1000 (by decide) rows]
  constructor
  · intro none
    apply List.eq_nil_iff_forall_not_mem.mpr
    intro feed member
    have positive := @feedBlocks_pos config tokenizer feed
    have empty := (List.replicate_eq_nil_iff _).mp (none feed member)
    omega
  · intro none feed member
    rw [feeds, none] at member
    exact (List.not_mem_nil member).elim

theorem loadEpoch_ne_nil_iff (epoch : Nat) :
    loadEpoch config tokenizer parallel dataset epoch ≠ [] ↔
      parallel.rank < dataset.rows.length := by
  rw [loadEpoch, batchesOf, ne_eq, pieces_eq_nil_iff _ config.batches, packedDataset_eq_nil_iff,
    ← ne_eq, splitDatasetByNode_ne_nil_iff, (dataset.shuffled epoch).length_eq]

end Shares

/-- Every step of a rank has a batch exactly when the rank gets an example at all and the
batches of every epoch can be collated. -/
theorem every_step_has_batch_iff (config : LoaderConfig) (tokenizer : Tokenizer)
    (parallel : DataParallel) (dataset : ShuffledDataset) :
    (∀ count, trainingSteps config tokenizer parallel dataset count
        (initialLoader config tokenizer parallel dataset) ≠ none) ↔
      parallel.rank < dataset.rows.length ∧
        ∀ epoch, ChangesAtMultiples config.batchSize (feedBlocks config tokenizer)
          (feedShape config tokenizer) 0
          (feeds (splitDatasetByNode parallel (dataset.order epoch))) := by
  have shares : (∀ epoch, loadEpoch config tokenizer parallel dataset (epoch + 1) ≠ []) ↔
      parallel.rank < dataset.rows.length := by
    simp only [loadEpoch_ne_nil_iff, forall_const]
  have collates : ∀ epoch, (∀ batch ∈ loadEpoch config tokenizer parallel dataset epoch,
      (collate batch).isSome = true) ↔
        ChangesAtMultiples config.batchSize (feedBlocks config tokenizer)
          (feedShape config tokenizer) 0
          (feeds (splitDatasetByNode parallel (dataset.order epoch))) := by
    intro epoch
    rw [← collatable_iff_changes]
    simp only [Collatable, Option.isSome_iff_ne_none, loadEpoch]
  simp only [trainingSteps_eq, initialLoader]
  rw [← Unending, unending_iff, shares]
  simp only [collates]

/-- The second of two ranks over one example. -/
theorem second_rank_without_batch :
    ¬ ∀ count, trainingSteps fourByFour characterTokenizer ⟨2, 1, by decide⟩
      ⟨[⟨"a", "b"⟩], fun _ => [⟨"a", "b"⟩], fun _ => List.Perm.refl _⟩ count
      (initialLoader fourByFour characterTokenizer ⟨2, 1, by decide⟩
        ⟨[⟨"a", "b"⟩], fun _ => [⟨"a", "b"⟩], fun _ => List.Perm.refl _⟩) ≠ none := by
  intro always
  exact always 1 (by decide)

end ScalarLM.Data
