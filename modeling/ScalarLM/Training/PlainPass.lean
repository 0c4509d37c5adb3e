import ScalarLM.Training.FsdpRuns
import ScalarLM.Training.UnwrapModel

/-! What the passes of the plain model come by: the modules with parameters, the operations
that keep a tensor, and the children that the shards of a wrapped model take the place of. -/

namespace ScalarLM.Training

open Loop (Transfer)

def Module.moduleAt : Path → Module → Option Module
  | [], module => some module
  | name :: rest, module => (module.children.get? name).bind (moduleAt rest)

inductive Visit where
  | entered (layer : Path) (parameters : Dict Name Nat)
  | left (layer : Path)
  | kept
  | replaced (child : Path)
  | passed (transfer : Transfer)

def layerTransfers (path : Path) (parameters : Dict Name Nat) : List Transfer :=
  ((keptParameters (path, parameters)).filter fun entry => decide (shardPrefix <+: entry.1)).map
    fun entry => .gather (path ++ [entry.1.drop shardPrefix.length])

def Visit.transfers : Visit → List Transfer
  | .entered layer parameters => layerTransfers layer parameters
  | .passed transfer => [transfer]
  | _ => []

def upToLast : Nat → List Visit → List Visit
  | _, [] => []
  | 0, .kept :: _ => []
  | left + 1, .kept :: rest => .kept :: upToLast left rest
  | saves, visit :: rest => visit :: upToLast saves rest

def LeftOpen (layer : Path) (visits : List Visit) : Prop :=
  ∃ before parameters after,
    visits = before ++ .entered layer parameters :: after ∧ .left layer ∉ after

/-- No child is called that a shard has taken the place of. -/
def NoneReplaced (visits : List Visit) : Prop := ∀ child, .replaced child ∉ visits

section Passes

variable {α β V : Type} [Zero α] (toFloat32 : α → β) (toOrigDtype : β → α) (worldSize : Nat)
  (model : Model α) (forward : Path → ForwardFunction α V)
  (shards : Nat → Shards worldSize model) (rank : Nat)

def askVisits (path : Path) (parameters : Dict Name Nat) (below : Name → V → List Visit) :
    Ask V → List Visit
  | .read _ => []
  | .call child input =>
      if path ≠ [] ∧ child ∈ (ownParameters parameters).map fun entry => shardName entry.1 then
        .replaced (path ++ [child]) :: below child input
      else below child input
  | .save => [.kept]

mutual

def Module.visits (path : Path) : Module → V → List Visit
  | .mk parameters children, input =>
      let inside := (forward path input).trace
        (plainAnswers
          (currentParameter toFloat32 toOrigDtype worldSize model shards rank path parameters)
          (children.plainForward toFloat32 toOrigDtype worldSize model forward shards rank path))
        (askVisits path parameters (children.visits path))
      if path = [] ∨ parameters.entries.isEmpty then inside
      else .entered path parameters :: (inside ++ [.left path])

def Children.visits (path : Path) : Children → Name → V → List Visit
  | .nil, _, _ => []
  | .cons name child rest, wanted, input =>
      if name = wanted then child.visits (path ++ [name]) input else rest.visits path wanted input

end

end Passes

section Calls

variable {α β V : Type} [Zero α] (toFloat32 : α → β) (toOrigDtype : β → α) (worldSize : Nat)
  (network : Network α V) (elementSize : Nat → Nat)
  (shards : Nat → Shards worldSize network.model) (rank : Nat)

def forwardVisits (input : V) : List Visit :=
  network.model.root.visits toFloat32 toOrigDtype worldSize network.model network.forward shards
    rank [] input

def layerVisits (layer : Path) (input : V) : List Visit :=
  ((network.model.root.moduleAt layer).map fun module => module.visits toFloat32 toOrigDtype
    worldSize network.model network.forward shards rank layer input).getD []

def backwardVisits : BackwardStep V → List Visit
  | .hook layer => [.left layer]
  | .recompute layer input saves =>
      if layer ∈ checkpointedLayers network.model elementSize then
        upToLast saves
          (layerVisits toFloat32 toOrigDtype worldSize network shards rank layer input)
      else []
  | .reduceScatter parameter => [.passed (.reduceScatter parameter)]

def unwrapTransfers (requiresGrad : Nat → Bool) (layer : Path × Dict Name Nat) :
    List Transfer :=
  (keptParameters layer).flatMap fun entry =>
    if requiresGrad entry.2.parameter ∧ shardPrefix <+: entry.1 then
      [.gather (layer.1 ++ [entry.1.drop shardPrefix.length])]
    else []

def callVisits : Call V → List Visit
  | .forward input => forwardVisits toFloat32 toOrigDtype worldSize network shards rank input
  | .forwardBackward input steps =>
      forwardVisits toFloat32 toOrigDtype worldSize network shards rank input ++
        steps.flatMap
          (backwardVisits toFloat32 toOrigDtype worldSize network elementSize shards rank)
  | .unwrapModel =>
      ((network.model.root.children.gathered []).flatMap
        (unwrapTransfers network.model.trainable)).map .passed

end Calls

section Balance

theorem leftOpen_append (layer : Path) (front back : List Visit) :
    LeftOpen layer (front ++ back) ↔
      LeftOpen layer back ∨ LeftOpen layer front ∧ .left layer ∉ back := by
  constructor
  · intro opened
    obtain ⟨before, parameters, after, split, shut⟩ := opened
    rcases List.append_eq_append_iff.mp split with ⟨middle, rfl, later⟩ | ⟨middle, rfl, later⟩
    · exact Or.inl ⟨middle, parameters, after, later, shut⟩
    · cases middle with
      | nil => exact Or.inl ⟨[], parameters, after, later.symm, shut⟩
      | cons visit middle =>
          rw [List.cons_append, List.cons.injEq] at later
          obtain ⟨rfl, rfl⟩ := later
          rw [List.mem_append, not_or] at shut
          exact Or.inr ⟨⟨before, parameters, middle, rfl, shut.1⟩, shut.2⟩
  · intro either
    rcases either with ⟨before, parameters, after, rfl, shut⟩ |
      ⟨⟨before, parameters, after, rfl, shut⟩, unleft⟩
    · exact ⟨front ++ before, parameters, after, (List.append_assoc _ _ _).symm, shut⟩
    · refine ⟨before, parameters, after ++ back, ?_, ?_⟩
      · rw [List.append_assoc, List.cons_append]
      · rw [List.mem_append, not_or]
        exact ⟨shut, unleft⟩

theorem not_leftOpen_nil (layer : Path) : ¬ LeftOpen layer [] := by
  intro opened
  obtain ⟨before, _, after, split, _⟩ := opened
  cases before <;> cases split

theorem leftOpen_cons (layer : Path) (visit : Visit) (rest : List Visit) :
    LeftOpen layer (visit :: rest) ↔
      LeftOpen layer rest ∨ (∃ parameters, visit = .entered layer parameters) ∧
        .left layer ∉ rest := by
  rw [← List.singleton_append, leftOpen_append]
  refine or_congr_right (and_congr_left fun _ => ?_)
  constructor
  · intro opened
    obtain ⟨before, parameters, after, split, _⟩ := opened
    cases before with
    | nil => exact ⟨parameters, (List.cons.inj split).1⟩
    | cons head tail =>
        have further := (List.cons.inj split).2
        cases tail <;> cases further
  · rintro ⟨parameters, rfl⟩
    exact ⟨[], parameters, [], rfl, List.not_mem_nil⟩

variable {α β V : Type} [Zero α] (toFloat32 : α → β) (toOrigDtype : β → α) (worldSize : Nat)
  (model : Model α) (forward : Path → ForwardFunction α V)
  (shards : Nat → Shards worldSize model) (rank : Nat) (layer : Path)

mutual

theorem Module.visits_left (path : Path) : ∀ (module : Module) (input : V),
    ¬ LeftOpen layer
      (module.visits toFloat32 toOrigDtype worldSize model forward shards rank path input)
  | .mk parameters children, input => by
      have asked (op : Ask V) : ¬ LeftOpen layer (askVisits path parameters
          (children.visits toFloat32 toOrigDtype worldSize model forward shards rank path) op) := by
        cases op with
        | read name => exact not_leftOpen_nil layer
        | call child value =>
            have below := Children.visits_left path child children value
            rw [askVisits]
            split
            · rw [leftOpen_cons]
              rintro (opened | ⟨⟨_, here⟩, _⟩)
              · exact below opened
              · cases here
            · exact below
        | save =>
            rw [askVisits, leftOpen_cons]
            rintro (opened | ⟨⟨_, here⟩, _⟩)
            · exact not_leftOpen_nil layer opened
            · cases here
      have inside := Program.trace_closed (plainAnswers
          (currentParameter toFloat32 toOrigDtype worldSize model shards rank path parameters)
          (children.plainForward toFloat32 toOrigDtype worldSize model forward shards rank path))
        (not_leftOpen_nil layer)
        (fun front back first second opened => ((leftOpen_append layer front back).mp opened).elim
          second fun both => first both.1) asked (forward path input)
      rw [Module.visits]
      split
      · exact inside
      · rw [leftOpen_cons, leftOpen_append, leftOpen_cons]
        rintro (((opened | ⟨⟨_, here⟩, _⟩) | ⟨opened, _⟩) | ⟨⟨_, here⟩, unleft⟩)
        · exact not_leftOpen_nil layer opened
        · cases here
        · exact inside opened
        · cases here
          exact unleft (List.mem_append_right _ List.mem_cons_self)

theorem Children.visits_left (path : Path) (wanted : Name) :
    ∀ (children : Children) (input : V), ¬ LeftOpen layer
      (children.visits toFloat32 toOrigDtype worldSize model forward shards rank path wanted input)
  | .nil, _ => not_leftOpen_nil layer
  | .cons name child rest, input => by
      rw [Children.visits]
      split
      · exact Module.visits_left (path ++ [name]) child input
      · exact Children.visits_left path wanted rest input

end

end Balance

end ScalarLM.Training
