import ScalarLM.Training.Network

/-! Which parameters of a tokenformer model are trained, which of them a checkpoint of one
process holds, and which of those the server takes from it. -/

namespace ScalarLM.Training

section Names

def tokenformerKey : List Char := ['t', 'o', 'k', 'e', 'n', 'f', 'o', 'r', 'm', 'e', 'r']

def lmHeadKey : Name := ['l', 'm', '_', 'h', 'e', 'a', 'd']

def weightKey : Name := ['w', 'e', 'i', 'g', 'h', 't']

def dotted (path : Path) : List Char := ['.'].intercalate path

def isIn (key text : List Char) : Bool := text.tails.any key.isPrefixOf

end Names

section Training

variable {α : Type}

def countParameters (module : Model α) : Nat :=
  (module.namedParameters.map fun entry => (module.tensors entry.2).numel).sum

def lmHeadWeight (tokenformerModel : Model α) : Option Nat :=
  (tokenformerModel.root.children.get? lmHeadKey).bind fun lmHead =>
    lmHead.parameters.get? weightKey

def trainsLmHead (tokenformerModel : Model α) (trainLmHead : Option Bool) : Bool :=
  trainLmHead.getD (decide (countParameters tokenformerModel < 100000000))

/-- The parameters that are unfrozen: first those with a name like it, then the head. -/
def unfrozen (tokenformerModel : Model α) (trainLmHead : Option Bool) (parameter : Nat) : Bool :=
  (tokenformerModel.namedParameters.any fun entry =>
    entry.2 == parameter && isIn tokenformerKey (dotted entry.1)) ||
  (trainsLmHead tokenformerModel trainLmHead &&
    decide (lmHeadWeight tokenformerModel = some parameter))

def unfreeze (tokenformerModel : Model α) (trainLmHead : Option Bool) : Model α where
  root := tokenformerModel.root
  parameters := fun parameter =>
    ⟨tokenformerModel.tensors parameter, unfrozen tokenformerModel trainLmHead parameter⟩
  wellFormed := tokenformerModel.wellFormed

inductive CreateError where
  | unboundLocalError
  deriving DecidableEq, Repr

/-- `create_llama_tokenformer_model` from the model on in which the layers are replaced and
the adapters are inserted. The last log line reads `step3_time`, which only the counting of the
parameters sets, so that an explicit `train_lm_head` ends in an exception. -/
def createLlamaTokenformerModel (tokenformerModel : Model α) (trainLmHead : Option Bool) :
    Except CreateError (Model α) :=
  if trainLmHead = none then .ok (unfreeze tokenformerModel trainLmHead)
  else .error .unboundLocalError

def isServed (name : Path) : Bool :=
  isIn tokenformerKey (dotted name) || isIn lmHeadKey (dotted name)

/-- The tensors that `TokenformerModel.from_local_checkpoint` takes from the model's part of
a checkpoint file. -/
def fromLocalCheckpoint (moduleStateDict : Dict Path (Tensor α)) : Dict Path (Tensor α) :=
  Dict.ofAssignments (moduleStateDict.entries.filter fun entry => isServed entry.1)

/-- Every parameter that is trained is saved and served, under one of its names and with its
value. -/
def Served (model : Model α) (values : Nat → Tensor α) : Prop :=
  ∀ name parameter, (name, parameter) ∈ model.root.members [] →
    model.trainable parameter = true →
    ∃ saved, filterCheckpoint model (model.stateDict values) = some saved ∧
      ∃ other, (other, parameter) ∈ model.root.members [] ∧
        saved.get? other = some (values parameter) ∧
        (fromLocalCheckpoint saved).get? other = some (values parameter)

theorem mem_fromLocalCheckpoint (moduleStateDict : Dict Path (Tensor α)) (name : Path)
    (tensor : Tensor α) :
    (name, tensor) ∈ fromLocalCheckpoint moduleStateDict ↔
      (name, tensor) ∈ moduleStateDict ∧ isServed name = true := by
  rw [fromLocalCheckpoint, Dict.mem_ofAssignments]
  · exact List.mem_filter
  · intro key left right hl hr
    exact moduleStateDict.value_unique key left right (List.mem_of_mem_filter hl)
      (List.mem_of_mem_filter hr)

/-- A trained parameter is served exactly when the server looks for its first name. -/
theorem served_iff_names (model : Model α) (values : Nat → Tensor α) :
    Served model values ↔
      ∀ name parameter, (name, parameter) ∈ model.namedParameters →
        model.trainable parameter = true → isServed name = true := by
  obtain ⟨saved, run, content⟩ := filterCheckpoint_eq model values
  constructor
  · intro served name parameter listed active
    obtain ⟨again, same, other, named, _, kept⟩ := served name parameter
      (model.namedParameters_subset _ listed) active
    rw [run, Option.some.injEq] at same
    subst same
    rw [Dict.get?_eq_some_iff, mem_fromLocalCheckpoint, content] at kept
    obtain ⟨⟨found, first, _⟩, looked⟩ := kept
    obtain rfl := model.name_unique other _ _ named (model.namedParameters_subset _ first)
    have once := List.inj_on_of_nodup_map
      (nodup_map_firstBy Prod.snd [] (model.root.members [])) listed first rfl
    rw [(Prod.mk.inj once).1]
    exact looked
  · intro looked name parameter member active
    obtain ⟨⟨first, same⟩, listed, identity⟩ :=
      exists_firstBy Prod.snd [] (model.root.members []) (name, parameter) member
        List.not_mem_nil
    dsimp only at identity
    subst identity
    have held := (content first (values same)).mpr ⟨same, listed, active, rfl⟩
    refine ⟨saved, run, first, model.namedParameters_subset _ listed, ?_, ?_⟩
    · exact (Dict.get?_eq_some_iff _ _ _).mpr held
    · exact (Dict.get?_eq_some_iff _ _ _).mpr
        ((mem_fromLocalCheckpoint _ _ _).mpr ⟨held, looked first same listed active⟩)

variable (tokenformerModel : Model α) (trainLmHead : Option Bool) (values : Nat → Tensor α)

theorem trainable_iff (parameter : Nat) :
    (unfreeze tokenformerModel trainLmHead).trainable parameter = true ↔
      (∃ name, (name, parameter) ∈ tokenformerModel.namedParameters ∧
        isIn tokenformerKey (dotted name) = true) ∨
      (trainsLmHead tokenformerModel trainLmHead = true ∧
        lmHeadWeight tokenformerModel = some parameter) := by
  change unfrozen tokenformerModel trainLmHead parameter = true ↔ _
  rw [unfrozen, Bool.or_eq_true, List.any_eq_true, Bool.and_eq_true, decide_eq_true_eq]
  refine or_congr_left ⟨?_, ?_⟩
  · intro given
    rcases given with ⟨⟨name, other⟩, listed, both⟩
    rw [Bool.and_eq_true, beq_iff_eq] at both
    obtain ⟨rfl, named⟩ := both
    exact ⟨name, listed, named⟩
  · intro given
    rcases given with ⟨name, listed, named⟩
    exact ⟨(name, parameter), listed, by rw [Bool.and_eq_true, beq_iff_eq]; exact ⟨rfl, named⟩⟩

/-- What is unfrozen is served exactly when a trained head is looked for under the name that
`named_parameters` has for it. -/
theorem unfreeze_served_iff :
    Served (unfreeze tokenformerModel trainLmHead) values ↔
      ∀ name parameter, trainsLmHead tokenformerModel trainLmHead = true →
        lmHeadWeight tokenformerModel = some parameter →
        (name, parameter) ∈ tokenformerModel.namedParameters → isServed name = true := by
  rw [served_iff_names]
  constructor
  · intro looked name parameter trains weight listed
    exact looked name parameter listed
      ((trainable_iff tokenformerModel trainLmHead parameter).mpr (Or.inr ⟨trains, weight⟩))
  · intro looked name parameter listed active
    rcases (trainable_iff tokenformerModel trainLmHead parameter).mp active with
      ⟨other, again, named⟩ | ⟨trains, weight⟩
    · have once := List.inj_on_of_nodup_map
        (nodup_map_firstBy Prod.snd [] (tokenformerModel.root.members [])) listed again rfl
      rw [(Prod.mk.inj once).1, isServed, named, Bool.true_or]
    · exact looked name parameter trains weight listed

/-- A model comes about and what is trained of it is served exactly when `train_lm_head` is left
open, and the head of a model that is small enough to have it trained is looked for under the
name that `named_parameters` has for it. -/
theorem trained_served_iff :
    (∃ model, createLlamaTokenformerModel tokenformerModel trainLmHead = .ok model ∧
      Served model values) ↔
      trainLmHead = none ∧ (countParameters tokenformerModel < 100000000 →
        ∀ name parameter, lmHeadWeight tokenformerModel = some parameter →
          (name, parameter) ∈ tokenformerModel.namedParameters → isServed name = true) := by
  by_cases left : trainLmHead = none
  · subst left
    have created : createLlamaTokenformerModel tokenformerModel none =
        .ok (unfreeze tokenformerModel none) := rfl
    have small : trainsLmHead tokenformerModel none = true ↔
        countParameters tokenformerModel < 100000000 := decide_eq_true_iff
    simp only [created, Except.ok.injEq, exists_eq_left', unfreeze_served_iff, small, true_and]
    exact ⟨fun looked few name parameter => looked name parameter few,
      fun looked name parameter few => looked few name parameter⟩
  · have raised : createLlamaTokenformerModel tokenformerModel trainLmHead =
        .error .unboundLocalError := if_neg left
    refine iff_of_false ?_ fun both => left both.1
    rintro ⟨model, created, _⟩
    rw [raised] at created
    cases created

end Training

section Tied

def tiedModel : Model Int where
  root := .mk .empty (.cons ['e', 'm', 'b', 'e', 'd'] (.mk (Dict.empty.set weightKey 0) .nil)
    (.cons lmHeadKey (.mk (Dict.empty.set weightKey 0) .nil) .nil))
  parameters := fun _ => ⟨⟨[2], [1, 2], rfl⟩, true⟩
  wellFormed := by
    simp [Module.WellFormed, Children.WellFormed, Children.names, Dict.keys, Dict.empty,
      lmHeadKey]

/-- The head is trained, and saved as the embedding, which the server passes over. -/
theorem tied_head_not_served :
    ¬ ∀ (tokenformerModel : Model Int) (trainLmHead : Option Bool) (values : Nat → Tensor Int),
      ∃ model, createLlamaTokenformerModel tokenformerModel trainLmHead = .ok model ∧
        Served model values := by
  intro claimed
  obtain ⟨model, created, served⟩ := claimed tiedModel none fun _ => ⟨[2], [5, 6], rfl⟩
  obtain rfl : unfreeze tiedModel none = model := Except.ok.inj created
  obtain ⟨saved, run, other, _, _, kept⟩ := served [lmHeadKey, weightKey] 0 (by decide) (by decide)
  have nothing : ((filterCheckpoint (unfreeze tiedModel none)
      ((unfreeze tiedModel none).stateDict fun _ => ⟨[2], [5, 6], rfl⟩)).map
        fun saved => (fromLocalCheckpoint saved).entries.isEmpty) = some true := by decide
  rw [run, Option.map_some, Option.some.injEq, List.isEmpty_iff] at nothing
  rw [Dict.get?_eq_some_iff, Dict.mem_def, nothing] at kept
  cases kept

end Tied

end ScalarLM.Training
