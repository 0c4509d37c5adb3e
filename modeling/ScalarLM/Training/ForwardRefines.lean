import ScalarLM.Training.LayerStates

/-! A rank's passes do to its modules what the plain model's passes do to open layers. -/

namespace ScalarLM.Training

open ScalarLM.Computation
open Loop (Transfer)

/-- The module may read its parameters: its layer is open, if it has one. -/
def Readable (path : Path) (parameters : Dict Name Nat) (layers : OpenLayers) : Prop :=
  path = [] ∨ parameters.entries.isEmpty ∨ layers.opened path = true

section Operations

variable {α β V : Type} [Zero α] (toFloat32 : α → β) (toOrigDtype : β → α) (worldSize : Nat)
  (model : Model α) (shards : Nat → Shards worldSize model) (rank : Nat)

theorem currentParameter_isSome (ranks : 1 ≤ worldSize) (bound : rank < worldSize) (path : Path)
    (parameters : Dict Name Nat) (name : Name) (known : name ∈ parameters.keys) :
    (currentParameter toFloat32 toOrigDtype worldSize model shards rank path parameters
      name).isSome := by
  obtain ⟨parameter, member⟩ := (Dict.mem_keys _ _).mp known
  rw [currentParameter, (Dict.get?_eq_some_iff _ _ _).mpr member, Option.bind_some]
  split
  · exact gatherShards_isSome toFloat32 toOrigDtype worldSize model shards rank ranks bound _ _
  · rfl

theorem save_simulates :
    Simulates (Related toFloat32 toOrigDtype worldSize model shards rank) save layeredSave := by
  intro state layers related
  rw [save, layeredSave, related.saves]
  cases layers.saves with
  | none => exact ⟨rfl, rfl, related⟩
  | some left =>
      cases left with
      | zero => exact ⟨rfl, rfl, related⟩
      | succ left => exact ⟨rfl, rfl, rfl, related.parameters, related.attributes⟩

variable {path : Path} {parameters : Dict Name Nat}
  (here : model.root.parametersAt path = some parameters)

def attributeValue : Attribute α → Tensor α
  | .memory slot => (shards rank).values slot
  | .full tensor => tensor

omit [Zero α] in
theorem readAttribute_eq (state : ProcessState α) (name : Name) :
    readAttribute (fun sender => (shards sender).values) rank path name state =
      (((state.modules path).getAttr name).map (attributeValue worldSize model shards rank)).elim
        ⟨[], state, .error .raised⟩ fun tensor => ⟨[], state, .ok tensor⟩ := by
  rw [readAttribute]
  cases (state.modules path).getAttr name with
  | none => rfl
  | some held => cases held <;> rfl

include here

theorem getAttr_plain (plain : path = [] ∨ parameters.entries.isEmpty) {state : ProcessState α}
    {layers : OpenLayers}
    (related : Related toFloat32 toOrigDtype worldSize model shards rank state layers)
    (name : Name) :
    ((state.modules path).getAttr name).map (attributeValue worldSize model shards rank) =
      currentParameter toFloat32 toOrigDtype worldSize model shards rank path parameters
        name := by
  have module := wrappedModule_plain (α := α) model.root path parameters here plain
  have unset : (Dict.empty : Dict Name (Attribute α)).get? name = none := rfl
  rw [ModuleState.getAttr, related.attributes, related.parameters, module, unset,
    Option.bind_none, Option.none_or, Dict.get?_mapValues, currentParameter]
  cases held : parameters.get? name with
  | none => rfl
  | some parameter =>
      rcases plain with root | empty
      · rw [Option.bind_some, if_neg (fun wrapped => wrapped.1 root)]
        rfl
      · have member := (Dict.get?_eq_some_iff _ _ _).mp held
        rw [Dict.mem_def, List.isEmpty_iff.mp empty] at member
        cases member

/-- An open layer has the gathers of its own parameters as attributes, and the others
registered. -/
theorem getAttr_wrapped (wrapped : ¬ (path = [] ∨ parameters.entries.isEmpty))
    (unreserved : ∀ name ∈ parameters.keys, ¬ shardPrefix <+: name) {state : ProcessState α}
    {layers : OpenLayers}
    (related : Related toFloat32 toOrigDtype worldSize model shards rank state layers)
    (opened : layers.opened path = true) (name : Name) (parameter : Nat)
    (held : parameters.get? name = some parameter) :
    ((state.modules path).getAttr name).map (attributeValue worldSize model shards rank) =
      currentParameter toFloat32 toOrigDtype worldSize model shards rank path parameters
        name := by
  have member := (Dict.get?_eq_some_iff _ _ _).mp held
  have below : path ≠ [] := fun root => wrapped (Or.inl root)
  have only : ∀ other, (name, other) ∈ ownParameters parameters → other = parameter :=
    fun other own => parameters.value_unique name other parameter
      (firstBy_subset _ _ _ _ own) member
  rw [ModuleState.getAttr, related_attributes toFloat32 toOrigDtype worldSize model shards rank
    here wrapped related, related_parameters toFloat32 toOrigDtype worldSize model shards rank
    here wrapped related, currentParameter, held, Option.bind_some, opened]
  by_cases own : (name, parameter) ∈ ownParameters parameters
  · have set := (mem_shardAttributes (α := α) path parameters name _).mpr ⟨parameter, own, rfl⟩
    have free : (shardParameters path parameters).get? name = none := by
      rw [Dict.get?_eq_none_iff_not_mem_keys]
      exact own_unregistered path unreserved _ own
    rw [set, free, Option.bind_some, Option.map_none, Option.or_none, if_pos ⟨below, own⟩,
      attributeWhile, if_pos rfl, Option.map_map]
    exact Option.map_id'
  · have unset : (shardAttributes path parameters : Dict Name (Attribute α)).get? name = none := by
      cases found : (shardAttributes path parameters : Dict Name (Attribute α)).get? name with
      | none => rfl
      | some value =>
          obtain ⟨other, present, _⟩ := (mem_shardAttributes path parameters name _).mp found
          rw [only other present] at present
          exact absurd present own
    have left : (name, parameter) ∈ unsharded parameters := by
      refine List.mem_filter.mpr ⟨member, decide_eq_true ?_⟩
      intro first firstOwn
      refine ⟨?_, ?_⟩
      · intro same
        dsimp only at same
        subst same
        exact own (by rw [← only first.2 firstOwn]; exact firstOwn)
      · intro same
        dsimp only at same
        exact unreserved name (List.mem_map.mpr ⟨_, member, rfl⟩)
          (by rw [same]; exact isPrefix_shardName _)
    have registered : (shardParameters path parameters).get? name = some (.whole parameter) :=
      (Dict.get?_eq_some_iff _ _ _).mpr
        ((mem_shardParameters _ _ _ _).mpr (Or.inr ⟨parameter, left, rfl⟩))
    rw [unset, registered, Option.bind_none, Option.none_or, if_neg (fun both => own both.2)]
    rfl

theorem readAttribute_simulates (ranks : 1 ≤ worldSize) (bound : rank < worldSize)
    (unreserved : ∀ name ∈ parameters.keys, ¬ shardPrefix <+: name)
    (name : Name) (known : name ∈ parameters.keys) :
    ∃ tensor, currentParameter toFloat32 toOrigDtype worldSize model shards rank path parameters
        name = some tensor ∧
      Simulates (fun state layers =>
          Related toFloat32 toOrigDtype worldSize model shards rank state layers ∧
            Readable path parameters layers)
        (readAttribute (fun sender => (shards sender).values) rank path name)
        (returns tensor) := by
  obtain ⟨tensor, found⟩ := Option.isSome_iff_exists.mp (currentParameter_isSome toFloat32
    toOrigDtype worldSize model shards rank ranks bound path parameters name known)
  refine ⟨tensor, found, ?_⟩
  intro state layers both
  obtain ⟨related, readable⟩ := both
  have same : ((state.modules path).getAttr name).map (attributeValue worldSize model shards rank) =
      some tensor := by
    rw [← found]
    by_cases plain : path = [] ∨ parameters.entries.isEmpty
    · exact getAttr_plain toFloat32 toOrigDtype worldSize model shards rank here plain related name
    · obtain ⟨parameter, member⟩ := (Dict.mem_keys _ _).mp known
      have opened := (or_assoc.mpr readable).resolve_left plain
      exact getAttr_wrapped toFloat32 toOrigDtype worldSize model shards rank here plain
        unreserved related opened name parameter ((Dict.get?_eq_some_iff _ _ _).mpr member)
  rw [readAttribute_eq, same]
  exact ⟨rfl, rfl, related, readable⟩

end Operations

section Conditions

mutual

theorem Module.everywhere_and {first second both : Path → Dict Name Nat → Children → Prop}
    (joined : ∀ path parameters children, first path parameters children →
      second path parameters children → both path parameters children) (path : Path) :
    ∀ module : Module, module.Everywhere first path → module.Everywhere second path →
      module.Everywhere both path
  | .mk parameters children => by
      intro one two
      exact ⟨joined path parameters children one.1 two.1,
        Children.everywhere_and joined path children one.2 two.2⟩

theorem Children.everywhere_and {first second both : Path → Dict Name Nat → Children → Prop}
    (joined : ∀ path parameters children, first path parameters children →
      second path parameters children → both path parameters children) (path : Path) :
    ∀ children : Children, children.Everywhere first path → children.Everywhere second path →
      children.Everywhere both path
  | .nil => fun _ _ => trivial
  | .cons name child rest => by
      intro one two
      exact ⟨Module.everywhere_and joined (path ++ [name]) child one.1 two.1,
        Children.everywhere_and joined path rest one.2 two.2⟩

end

/-- A module whose names are not reserved and that asks for what it has. -/
def Sound {α V : Type} (forward : Path → ForwardFunction α V) (path : Path)
    (parameters : Dict Name Nat) (children : Children) : Prop :=
  (∀ name ∈ parameters.keys, ¬ shardPrefix <+: name) ∧
    ∀ input, (forward path input).Within (Offered parameters children)

theorem Network.sound {α V : Type} (network : Network α V) :
    network.model.root.Everywhere (Sound network.forward) [] :=
  Module.everywhere_and (fun _ _ _ names within => ⟨names, within⟩) _ _ network.unreserved
    network.offered

end Conditions

section Passes

def Visit.layer? : Visit → Option Path
  | .entered layer _ => some layer
  | .left layer => some layer
  | _ => none

def VisitsBelow (path : Path) (visits : List Visit) : Prop :=
  ∀ visit ∈ visits, ∀ layer, visit.layer? = some layer → path <+: layer

theorem below_append (path : Path) (front back : List Visit) (first : VisitsBelow path front)
    (second : VisitsBelow path back) : VisitsBelow path (front ++ back) := by
  intro visit member
  rcases List.mem_append.mp member with early | late
  · exact first visit early
  · exact second visit late

theorem below_nil (path : Path) : VisitsBelow path [] :=
  fun _ member => absurd member List.not_mem_nil

theorem below_cons (path : Path) (visit : Visit) (rest : List Visit)
    (here : ∀ layer, visit.layer? = some layer → path <+: layer) (later : VisitsBelow path rest) :
    VisitsBelow path (visit :: rest) := by
  rw [VisitsBelow, List.forall_mem_cons]
  exact ⟨here, later⟩

theorem below_parent (path : Path) (name : Name) (visits : List Visit)
    (below : VisitsBelow (path ++ [name]) visits) : VisitsBelow path visits :=
  fun visit member layer found => (List.prefix_append _ _).trans (below visit member layer found)

theorem forEach_come_parent (path : Path) (name : Name) (visits : List Visit)
    (below : VisitsBelow (path ++ [name]) visits) (layers : OpenLayers) :
    (forEach come visits layers).state.opened path = layers.opened path := by
  have chains : Chains fun (start : OpenLayers) (_ : List Transfer) last =>
      last.opened path = start.opened path :=
    ⟨fun _ => rfl, fun _ _ _ _ _ first second => second.trans first⟩
  refine chains.forEach (fun visit member => ?_) layers
  have apart : ∀ layer, visit.layer? = some layer → path ≠ layer := by
    intro layer found same
    have longer := (below visit member layer found).length_le
    rw [← same, List.length_append] at longer
    simp at longer
  intro start
  cases visit with
  | entered layer parameters => exact if_neg (apart layer rfl)
  | left layer => exact if_neg (apart layer rfl)
  | kept =>
      rw [come, layeredSave]
      split <;> rfl
  | replaced child => rfl
  | passed transfer => rfl

variable {α β V : Type} [Zero α] (toFloat32 : α → β) (toOrigDtype : β → α) (worldSize : Nat)
  (model : Model α) (forward : Path → ForwardFunction α V)
  (shards : Nat → Shards worldSize model) (rank : Nat)

theorem askVisits_call_below (place path : Path) (parameters : Dict Name Nat)
    (visits : Name → V → List Visit) (child : Name) (input : V)
    (below : VisitsBelow place (visits child input)) :
    VisitsBelow place (askVisits path parameters visits (.call child input)) := by
  rw [askVisits]
  split
  · exact below_cons place _ _ (fun layer found => by cases found) below
  · exact below

theorem askVisits_below (path : Path) (parameters : Dict Name Nat)
    (visits : Name → V → List Visit)
    (below : ∀ child input, VisitsBelow path (visits child input)) (op : Ask V) :
    VisitsBelow path (askVisits path parameters visits op) := by
  cases op with
  | read name => exact below_nil path
  | call child input =>
      exact askVisits_call_below path path parameters visits child input (below child input)
  | save => exact below_cons path _ _ (fun layer found => by cases found) (below_nil path)

mutual

theorem Module.visits_below (path : Path) : ∀ (module : Module) (input : V),
    VisitsBelow path
      (module.visits toFloat32 toOrigDtype worldSize model forward shards rank path input)
  | .mk parameters children, input => by
      have asked := askVisits_below path parameters _ fun child value =>
        below_parent path child _ (Children.visits_below path child children value)
      have inside := Program.trace_closed (plainAnswers
          (currentParameter toFloat32 toOrigDtype worldSize model shards rank path parameters)
          (children.plainForward toFloat32 toOrigDtype worldSize model forward shards rank path))
        (below_nil path) (below_append path) asked (forward path input)
      rw [Module.visits]
      split
      · exact inside
      · refine below_cons path _ _ (fun layer found => ?_) (below_append path _ _ inside
          (below_cons path _ _ (fun layer found => ?_) (below_nil path)))
        · cases found
          exact List.prefix_rfl
        · cases found
          exact List.prefix_rfl

theorem Children.visits_below (path : Path) (wanted : Name) :
    ∀ (children : Children) (input : V), VisitsBelow (path ++ [wanted])
      (children.visits toFloat32 toOrigDtype worldSize model forward shards rank path wanted input)
  | .nil, _ => below_nil _
  | .cons name child rest, input => by
      rw [Children.visits]
      split
      · rename_i same
        subst same
        exact Module.visits_below (path ++ [name]) child input
      · exact Children.visits_below path wanted rest input

end

end Passes

section Checkpoints

variable {α : Type} (model : Model α) (elementSize : Nat → Nat) (target : Path)

theorem Module.parametersAt_eq (path : Path) : ∀ module : Module,
    module.parametersAt path = (module.moduleAt path).map Module.parameters := by
  induction path with
  | nil => exact fun module => rfl
  | cons name rest ih =>
      intro module
      rw [Module.parametersAt, Module.moduleAt]
      cases module.children.get? name with
      | none => rfl
      | some child => exact ih child

mutual

theorem Module.checkpointed_below (path : Path) : ∀ module : Module,
    target ∈ module.checkpointed model elementSize path → path <+: target
  | .mk parameters children => by
      intro member
      have inside (replaced : List Name)
          (later : target ∈ children.checkpointed model elementSize replaced path) :
          path <+: target := by
        obtain ⟨name, _, ahead⟩ := Children.checkpointed_below path replaced children later
        exact (List.prefix_append _ _).trans ahead
      rw [Module.checkpointed] at member
      split at member
      · exact inside [] member
      · rcases List.mem_append.mp member with here | later
        · split at here
          · exact List.mem_singleton.mp here ▸ List.prefix_rfl
          · cases here
        · exact inside _ later

theorem Children.checkpointed_below (path : Path) (replaced : List Name) : ∀ children : Children,
    target ∈ children.checkpointed model elementSize replaced path →
      ∃ name ∈ children.names, path ++ [name] <+: target
  | .nil => by
      intro member
      cases member
  | .cons name child rest => by
      intro member
      have later (inside : target ∈ rest.checkpointed model elementSize replaced path) :
          ∃ other ∈ (Children.cons name child rest).names, path ++ [other] <+: target := by
        obtain ⟨other, listed, ahead⟩ := Children.checkpointed_below path replaced rest inside
        exact ⟨other, List.mem_cons_of_mem _ listed, ahead⟩
      rw [Children.checkpointed] at member
      split at member
      · exact later member
      · rcases List.mem_append.mp member with here | inside
        · exact ⟨name, List.mem_cons_self, Module.checkpointed_below (path ++ [name]) child here⟩
        · exact later inside

end

end Checkpoints

section Tree

variable {α β V : Type} [Zero α] (toFloat32 : α → β) (toOrigDtype : β → α) (worldSize : Nat)
  (model : Model α) (forward : Path → ForwardFunction α V)
  (shards : Nat → Shards worldSize model) (rank : Nat) (ranks : 1 ≤ worldSize)
  (bound : rank < worldSize)

/-- From related states a computation of the wrapped model does what the plain model comes by,
and returns the value. -/
abbrev Follows {ρ : Type} (related : ProcessState α → OpenLayers → Prop)
    (computation : Process α ρ) (visits : List Visit) (value : ρ) : Prop :=
  Simulates related computation ((forEach come visits).andThen fun _ => returns value)

omit [Zero α] in
theorem wrapLayers_replaced (path : Path) (replaced : List Name) (wanted : Name)
    (taken : wanted ∈ replaced) (tensors : Nat → Tensor α) (values : Nat → Slot → Tensor α)
    [Zero α] : ∀ (children : Children) (input : V),
      (wrapLayers worldSize rank tensors path replaced children).call toFloat32 toOrigDtype
        worldSize values rank forward path wanted input = throws .raised
  | .nil, input => by rw [wrapLayers, WrappedChildren.call]
  | .cons name child rest, input => by
      rw [wrapLayers]
      by_cases gone : name ∈ replaced
      · rw [if_pos gone]
        exact wrapLayers_replaced path replaced wanted taken tensors values rest input
      · have apart : name ≠ wanted := fun same => gone (same ▸ taken)
        rw [if_neg gone, WrappedChildren.call, if_neg apart]
        exact wrapLayers_replaced path replaced wanted taken tensors values rest input

omit [Zero α] in
theorem replaced_follows {ρ : Type} (related : ProcessState α → OpenLayers → Prop) (child : Path)
    (rest : List Visit) (value : ρ) :
    Follows related (throws .raised) (.replaced child :: rest) value :=
  fun _ _ holds => ⟨rfl, rfl, holds⟩

def Taken (path : Path) (parameters : Dict Name Nat) (replaced : List Name) : Prop :=
  ∀ child, child ∈ replaced ↔
    path ≠ [] ∧ child ∈ (ownParameters parameters).map fun entry => shardName entry.1

theorem child_follows {path : Path} {parameters : Dict Name Nat} {replaced : List Name}
    (made : Taken path parameters replaced) {children : Children} {child : Name} {input value : V}
    (follows : child ∉ replaced →
      Follows (Related toFloat32 toOrigDtype worldSize model shards rank)
        ((wrapLayers worldSize rank model.tensors path replaced children).call toFloat32
          toOrigDtype worldSize (fun sender => (shards sender).values) rank forward path child
          input)
        (children.visits toFloat32 toOrigDtype worldSize model forward shards rank path child
          input) value) :
    Follows (Related toFloat32 toOrigDtype worldSize model shards rank)
      ((wrapLayers worldSize rank model.tensors path replaced children).call toFloat32
        toOrigDtype worldSize (fun sender => (shards sender).values) rank forward path child input)
      (askVisits path parameters
        (children.visits toFloat32 toOrigDtype worldSize model forward shards rank path)
        (.call child input)) value := by
  rw [askVisits]
  by_cases taken : child ∈ replaced
  · rw [if_pos ((made child).mp taken), wrapLayers_replaced toFloat32 toOrigDtype worldSize forward
      rank path replaced child taken]
    exact replaced_follows _ _ _ _
  · rw [if_neg fun given => taken ((made child).mpr given)]
    exact follows taken

theorem body_follows (positive : 1 ≤ worldSize) (inside : rank < worldSize) {path : Path}
    {parameters : Dict Name Nat} {children : Children} {replaced : List Name}
    (here : model.root.parametersAt path = some parameters)
    (sound : Sound forward path parameters children) (made : Taken path parameters replaced)
    (calls : ∀ child ∈ children.names, ∀ input,
      ∃ value, children.plainForward toFloat32 toOrigDtype worldSize model forward shards rank
          path child input = some value ∧
        (child ∉ replaced →
          Follows (Related toFloat32 toOrigDtype worldSize model shards rank)
            ((wrapLayers worldSize rank model.tensors path replaced children).call toFloat32
              toOrigDtype worldSize (fun sender => (shards sender).values) rank forward path
              child input)
            (children.visits toFloat32 toOrigDtype worldSize model forward shards rank path child
              input) value)) (input : V) :
    ∃ value, (forward path input).evaluate (plainAnswers
        (currentParameter toFloat32 toOrigDtype worldSize model shards rank path parameters)
        (children.plainForward toFloat32 toOrigDtype worldSize model forward shards rank path)) =
          some value ∧
      Follows (fun state layers =>
          Related toFloat32 toOrigDtype worldSize model shards rank state layers ∧
            Readable path parameters layers)
        ((forward path input).run
          (moduleAnswers (fun sender => (shards sender).values) rank path
            ((wrapLayers worldSize rank model.tensors path replaced children).call toFloat32
              toOrigDtype worldSize (fun sender => (shards sender).values) rank forward path)))
        ((forward path input).trace (plainAnswers
            (currentParameter toFloat32 toOrigDtype worldSize model shards rank path parameters)
            (children.plainForward toFloat32 toOrigDtype worldSize model forward shards rank path))
          (askVisits path parameters
            (children.visits toFloat32 toOrigDtype worldSize model forward shards rank path)))
        value := by
  refine Program.simulates_trace ?_ _ (sound.2 input)
  intro op allowed
  cases op with
  | read name =>
      obtain ⟨tensor, found, reads⟩ := readAttribute_simulates toFloat32 toOrigDtype worldSize
        model shards rank here positive inside sound.1 name allowed
      refine ⟨tensor, found, ?_⟩
      rw [askVisits, forEach, returns_andThen]
      exact reads
  | call child value =>
      obtain ⟨result, given, follows⟩ := calls child allowed value
      refine ⟨result, given, simulates_and ?_ (child_follows toFloat32 toOrigDtype worldSize model
        forward shards rank made follows)⟩
      intro layers readable
      have below := children.visits_below toFloat32 toOrigDtype worldSize model forward shards rank
        path child value
      have apart := forEach_come_parent path child _ (askVisits_call_below _ path parameters
        (children.visits toFloat32 toOrigDtype worldSize model forward shards rank path) child
        value below) layers
      have returned := state_andThen_returns (forEach come (askVisits path parameters
        (children.visits toFloat32 toOrigDtype worldSize model forward shards rank path)
        (.call child value))) result layers
      refine (congrArg (Readable path parameters) returned).mpr ?_
      rw [Readable, apart]
      exact readable
  | save =>
      have asked : ((forEach come [.kept]).andThen fun _ => returns ()) = layeredSave :=
        (andThen_returns _).trans (andThen_returns layeredSave)
      refine ⟨(), rfl, asked ▸ simulates_and ?_
        (save_simulates toFloat32 toOrigDtype worldSize model shards rank)⟩
      intro layers readable
      rw [layeredSave]
      split
      · exact readable
      · exact readable
      · exact readable

theorem unlayered_follows {path : Path} {parameters : Dict Name Nat}
    (plain : path = [] ∨ parameters.entries.isEmpty) {body : Process α V} {inside : List Visit}
    {value : V}
    (follows : Follows (fun state layers =>
      Related toFloat32 toOrigDtype worldSize model shards rank state layers ∧
        Readable path parameters layers) body inside value) :
    Follows (Related toFloat32 toOrigDtype worldSize model shards rank) body inside value := by
  intro state layers related
  obtain ⟨issued, result, after, _⟩ :=
    follows state layers ⟨related, plain.imp id Or.inl⟩
  exact ⟨issued, result, after⟩

include ranks bound

theorem gather_opens {path : Path} {parameters : Dict Name Nat}
    (here : model.root.parametersAt path = some parameters)
    (wrapped : ¬ (path = [] ∨ parameters.entries.isEmpty))
    (unreserved : ∀ name ∈ parameters.keys, ¬ shardPrefix <+: name) :
    SimulatesTo (Related toFloat32 toOrigDtype worldSize model shards rank)
      (fun state layers => Related toFloat32 toOrigDtype worldSize model shards rank state layers ∧
        Readable path parameters layers)
      (gatherAllParameters toFloat32 toOrigDtype worldSize (fun sender => (shards sender).values)
        rank path (shardedParameterMetadata worldSize rank model.tensors parameters))
      (enter path parameters) := by
  intro state layers related
  obtain ⟨after, ran, opened⟩ := gatherAllParameters_opens toFloat32 toOrigDtype worldSize model
    shards rank here wrapped unreserved related ranks bound
  rw [ran]
  exact ⟨rfl, rfl, opened, Or.inr (Or.inr (if_pos rfl))⟩

omit ranks bound in
theorem free_simulates {path : Path} {parameters : Dict Name Nat}
    (here : model.root.parametersAt path = some parameters)
    (wrapped : ¬ (path = [] ∨ parameters.entries.isEmpty))
    (unreserved : ∀ name ∈ parameters.keys, ¬ shardPrefix <+: name) :
    Simulates (Related toFloat32 toOrigDtype worldSize model shards rank) (freeParams path)
      (leave path) := by
  intro state layers related
  obtain ⟨after, ran, closed⟩ := freeParams_closes toFloat32 toOrigDtype worldSize model shards
    rank here wrapped unreserved related
  rw [ran]
  exact ⟨rfl, rfl, closed⟩

theorem layer_follows {path : Path} {parameters : Dict Name Nat}
    (here : model.root.parametersAt path = some parameters)
    (wrapped : ¬ (path = [] ∨ parameters.entries.isEmpty))
    (unreserved : ∀ name ∈ parameters.keys, ¬ shardPrefix <+: name) {body : Process α V}
    {inside : List Visit} {value : V}
    (follows : Follows (fun state layers =>
      Related toFloat32 toOrigDtype worldSize model shards rank state layers ∧
        Readable path parameters layers) body inside value) :
    Follows (Related toFloat32 toOrigDtype worldSize model shards rank)
      ((gatherAllParameters toFloat32 toOrigDtype worldSize (fun sender => (shards sender).values)
        rank path (shardedParameterMetadata worldSize rank model.tensors parameters)).andThen
        fun _ => body.andThen fun result => (freeParams path).andThen fun _ => returns result)
      (.entered path parameters :: (inside ++ [.left path])) value := by
  have last : forEach come [.left path] = leave path := andThen_returns (leave path)
  have split : ((forEach come (.entered path parameters :: (inside ++ [.left path]))).andThen
      fun _ => returns value) = (enter path parameters).andThen fun _ =>
        ((forEach come inside).andThen fun _ => returns value).andThen fun result =>
          (leave path).andThen fun _ => returns result := by
    rw [forEach, andThen_assoc, forEach_append, last]
    simp only [andThen_assoc, returns_andThen]
    rfl
  have weaker : ∀ state layers,
      (Related toFloat32 toOrigDtype worldSize model shards rank state layers ∧
        Readable path parameters layers) →
      Related toFloat32 toOrigDtype worldSize model shards rank state layers :=
    fun _ _ both => both.1
  rw [Follows, split]
  refine simulatesTo_andThen weaker (gather_opens toFloat32 toOrigDtype worldSize model shards
    rank ranks bound here wrapped unreserved) fun _ _ => ?_
  refine simulatesTo_andThen weaker follows fun result _ => ?_
  have closes := simulates_andThen (free_simulates toFloat32 toOrigDtype worldSize model shards
    rank here wrapped unreserved) fun _ => simulates_returns result
  exact fun state layers both => closes state layers both.1

-- Each theorem of the two uses the section's hypotheses, through the other one.
set_option linter.unusedSectionVars false

mutual

theorem wrapLayer_follows (path : Path) (below : path ≠ []) : ∀ module : Module,
    (∀ tail, model.root.parametersAt (path ++ tail) = module.parametersAt tail) →
    module.Everywhere (Sound forward) path → ∀ input,
    ∃ value, module.plainForward toFloat32 toOrigDtype worldSize model forward shards rank path
        input = some value ∧
      Follows (Related toFloat32 toOrigDtype worldSize model shards rank)
        ((wrapLayer worldSize rank model.tensors path module).call toFloat32 toOrigDtype
          worldSize (fun sender => (shards sender).values) rank forward path input)
        (module.visits toFloat32 toOrigDtype worldSize model forward shards rank path input) value
  | .mk parameters children => by
      intro located sound input
      have here : model.root.parametersAt path = some parameters := by
        have root := located []
        rw [List.append_nil] at root
        exact root
      have inside (replaced : List Name) (made : Taken path parameters replaced) :=
        body_follows toFloat32 toOrigDtype worldSize model forward shards rank ranks bound here
          sound.1 made (fun child member value => wrapLayers_follows path replaced child children
            (fun tail => located (child :: tail)) sound.2 member value) input
      rw [wrapLayer, Module.plainForward, Module.visits]
      by_cases empty : parameters.entries.isEmpty
      · obtain ⟨value, plain, follows⟩ := inside [] fun child => by
          simp [ownParameters, List.isEmpty_iff.mp empty, firstBy]
        refine ⟨value, plain, ?_⟩
        rw [if_pos empty, if_pos (Or.inr empty), Wrapped.call]
        exact unlayered_follows toFloat32 toOrigDtype worldSize model shards rank (Or.inr empty)
          follows
      · have wrapped : ¬ (path = [] ∨ parameters.entries.isEmpty) :=
          fun either => either.elim below empty
        obtain ⟨value, plain, follows⟩ := inside ((ownParameters parameters).map
          fun entry => shardName entry.1) fun child => by simp [below]
        refine ⟨value, plain, ?_⟩
        rw [if_neg empty, if_neg wrapped, Wrapped.call, Wrapped.call]
        exact layer_follows toFloat32 toOrigDtype worldSize model shards rank ranks bound here
          wrapped sound.1.1 follows

theorem wrapLayers_follows (path : Path) (replaced : List Name) (wanted : Name) :
    ∀ children : Children,
    (∀ tail, model.root.parametersAt (path ++ wanted :: tail) =
      (children.get? wanted).bind (Module.parametersAt tail)) →
    children.Everywhere (Sound forward) path → wanted ∈ children.names → ∀ input,
    ∃ value, children.plainForward toFloat32 toOrigDtype worldSize model forward shards rank path
        wanted input = some value ∧
      (wanted ∉ replaced →
        Follows (Related toFloat32 toOrigDtype worldSize model shards rank)
          ((wrapLayers worldSize rank model.tensors path replaced children).call toFloat32
            toOrigDtype worldSize (fun sender => (shards sender).values) rank forward path wanted
            input)
          (children.visits toFloat32 toOrigDtype worldSize model forward shards rank path wanted
            input) value)
  | .nil => by
      intro _ _ member
      cases member
  | .cons name child rest => by
      intro located sound member input
      rw [Children.get?] at located
      rw [wrapLayers, Children.plainForward, Children.visits]
      by_cases same : name = wanted
      · subst same
        have root : ∀ tail, model.root.parametersAt ((path ++ [name]) ++ tail) =
            child.parametersAt tail := by
          intro tail
          have shown := located tail
          rw [if_pos rfl, Option.bind_some] at shown
          rw [← shown, List.append_assoc]
          rfl
        obtain ⟨value, plain, follows⟩ := wrapLayer_follows (path ++ [name]) (by simp) child root
          sound.1 input
        rw [if_pos rfl, if_pos rfl]
        refine ⟨value, plain, fun kept => ?_⟩
        rw [if_neg kept, WrappedChildren.call, if_pos rfl]
        exact follows
      · have further : wanted ∈ rest.names :=
          (List.mem_cons.mp member).resolve_left fun equal => same equal.symm
        rw [if_neg same] at located
        obtain ⟨value, plain, follows⟩ := wrapLayers_follows path replaced wanted rest located
          sound.2 further input
        rw [if_neg same, if_neg same]
        refine ⟨value, plain, fun kept => ?_⟩
        by_cases taken : name ∈ replaced
        · rw [if_pos taken]
          exact follows kept
        · rw [if_neg taken, WrappedChildren.call, if_neg same]
          exact follows kept

end

omit ranks bound [Zero α] in
theorem untilSaved_simulates {related : ProcessState α → OpenLayers → Prop}
    (shown : ∀ state layers saves, related state layers →
      related { state with saves := saves } { layers with saves := saves })
    (saves : Nat) {left : Process α V} {right : Layered V} (same : Simulates related left right) :
    Simulates related (untilSaved saves left) (layeredUntilSaved saves right) := by
  intro state layers holds
  obtain ⟨issued, result, after⟩ := same _ _ (shown state layers (some saves) holds)
  rw [untilSaved, layeredUntilSaved]
  dsimp only
  rw [result]
  exact ⟨issued, rfl, shown _ _ none after⟩

/-- The modules of a rank while nothing is recomputed. -/
def Resting (state : ProcessState α) (layers : OpenLayers) : Prop :=
  Related toFloat32 toOrigDtype worldSize model shards rank state layers ∧ Running layers

omit ranks bound in
theorem untilSaved_follows (saves : Nat) {computation : Process α V} {visits : List Visit}
    {value : V}
    (follows : Follows (Related toFloat32 toOrigDtype worldSize model shards rank) computation
      visits value) :
    Simulates (Resting toFloat32 toOrigDtype worldSize model shards rank)
      (untilSaved saves computation) (forEach come (upToLast saves visits)) := by
  intro state layers both
  obtain ⟨related, running⟩ := both
  obtain ⟨issued, result, after⟩ := untilSaved_simulates
    (fun _ _ _ given => ⟨rfl, given.parameters, given.attributes⟩) saves follows state layers
    related
  rw [layeredUntilSaved_eq saves visits value layers running] at issued result after
  exact ⟨issued, result, after, forEach_come_running _ layers running⟩

variable (elementSize : Nat → Nat) (target : Path) (saves : Nat)

mutual

theorem recompute_follows (path : Path) (below : path ≠ []) : ∀ module : Module,
    (∀ tail, model.root.moduleAt (path ++ tail) = module.moduleAt tail) →
    module.Everywhere (Sound forward) path → module.WellFormed →
    target ∈ module.checkpointed model elementSize path → ∀ input,
    Simulates (Resting toFloat32 toOrigDtype worldSize model shards rank)
      ((wrapLayer worldSize rank model.tensors path module).recompute toFloat32 toOrigDtype
        worldSize (fun sender => (shards sender).values) rank forward target saves path input)
      (forEach come (upToLast saves (((model.root.moduleAt target).map fun module =>
        module.visits toFloat32 toOrigDtype worldSize model forward shards rank target
          input).getD [])))
  | .mk parameters children => by
      intro located sound formed member input
      have inside (replaced : List Name) := recomputes_follows path replaced children
        (fun wanted _ tail => located (wanted :: tail)) sound.2 formed.2
      obtain ⟨value, _, call⟩ := wrapLayer_follows toFloat32 toOrigDtype worldSize model forward
        shards rank ranks bound path below (.mk parameters children) (fun tail => by
          rw [Module.parametersAt_eq, Module.parametersAt_eq, located]) sound input
      rw [wrapLayer] at call
      rw [Module.checkpointed] at member
      rw [wrapLayer]
      by_cases empty : parameters.entries.isEmpty
      · rw [if_pos empty] at member
        rw [if_pos empty, Wrapped.recompute]
        exact inside [] member input
      · rw [if_neg empty] at call member
        rw [if_neg empty, Wrapped.recompute, Wrapped.recompute]
        by_cases mine : path = target
        · subst mine
          have here := located []
          rw [List.append_nil] at here
          rw [if_pos rfl, here]
          exact untilSaved_follows toFloat32 toOrigDtype worldSize model shards rank saves call
        · rw [if_neg mine]
          refine inside _ ((List.mem_append.mp member).resolve_left fun here => ?_) input
          split at here
          · exact mine (List.mem_singleton.mp here).symm
          · cases here

theorem recomputes_follows (path : Path) (replaced : List Name) : ∀ children : Children,
    (∀ wanted ∈ children.names, ∀ tail, model.root.moduleAt (path ++ wanted :: tail) =
      (children.get? wanted).bind (Module.moduleAt tail)) →
    children.Everywhere (Sound forward) path → children.WellFormed →
    target ∈ children.checkpointed model elementSize replaced path → ∀ input,
    Simulates (Resting toFloat32 toOrigDtype worldSize model shards rank)
      ((wrapLayers worldSize rank model.tensors path replaced children).recompute toFloat32
        toOrigDtype worldSize (fun sender => (shards sender).values) rank forward target saves
        path input)
      (forEach come (upToLast saves (((model.root.moduleAt target).map fun module =>
        module.visits toFloat32 toOrigDtype worldSize model forward shards rank target
          input).getD [])))
  | .nil => by
      intro _ _ _ member
      cases member
  | .cons name child rest => by
      intro located sound formed member input
      have later := recomputes_follows path replaced rest (fun wanted listed tail => by
        have apart : name ≠ wanted := fun same => formed.1 (same ▸ listed)
        have root := located wanted (List.mem_cons_of_mem _ listed) tail
        rw [Children.get?, if_neg apart] at root
        exact root) sound.2 formed.2.2
      rw [Children.checkpointed] at member
      rw [wrapLayers]
      by_cases taken : name ∈ replaced
      · rw [if_pos taken] at member
        rw [if_pos taken]
        exact later member input
      · rw [if_neg taken] at member
        rw [if_neg taken, WrappedChildren.recompute]
        rcases List.mem_append.mp member with here | further
        · rw [if_pos (Module.checkpointed_below model elementSize target _ child here)]
          refine recompute_follows (path ++ [name]) (by simp) child (fun tail => ?_) sound.1
            formed.2.1 here input
          have root := located name List.mem_cons_self tail
          rw [Children.get?, if_pos rfl, Option.bind_some] at root
          rw [← root, List.append_assoc]
          rfl
        · rw [if_neg fun ahead => ?_]
          · exact later further input
          · obtain ⟨other, listed, there⟩ := Children.checkpointed_below model elementSize target
              path replaced rest further
            have same : path ++ [name] = path ++ [other] :=
              (List.prefix_of_prefix_length_le ahead there (by simp)).eq_of_length (by simp)
            have equal : name = other := by simpa using same
            exact formed.1 (equal ▸ listed)

end

end Tree

section Unwrapping

open Loop Issued

variable {α : Type} [Zero α] (worldSize rank : Nat) (tensors : Nat → Tensor α)
  (requiresGrad : Nat → Bool)

theorem unwrapParameterIssues_kept (path : Path) (parameters : Dict Name Nat)
    (unreserved : ∀ name ∈ parameters.keys, ¬ shardPrefix <+: name) (entry : Name × Slot)
    (kept : entry ∈ keptParameters (path, parameters)) :
    unwrapParameterIssues requiresGrad path
        (shardedParameterMetadata worldSize rank tensors parameters) entry =
      issue (if requiresGrad entry.2.parameter ∧ shardPrefix <+: entry.1 then
        [.gather (path ++ [entry.1.drop shardPrefix.length])] else []) () := by
  rw [unwrapParameterIssues]
  by_cases active : requiresGrad entry.2.parameter
  · by_cases marked : shardPrefix <+: entry.1
    · obtain ⟨parameter, own, _⟩ := (marked_kept_iff path unreserved _ entry.2).mp
        (by rw [← eq_shardName_of_marked entry.1 marked]; exact kept)
      have metadata := (mem_shardedParameterMetadata worldSize rank tensors parameters _ _).mpr
        ⟨parameter, own, rfl⟩
      rw [if_pos active, if_pos marked, if_pos ⟨active, marked⟩, metadata]
    · rw [if_pos active, if_neg marked, if_neg fun both => marked both.2]
  · rw [if_neg active, if_neg fun both => active both.1]

mutual

/-- Unwrapping gathers the trainable parameters of the topmost layers. -/
theorem unwrapLayerIssues_wrapLayer (path : Path) : ∀ module : Module,
    module.Everywhere (fun _ parameters _ => ∀ name ∈ parameters.keys, ¬ shardPrefix <+: name)
      path →
    unwrapLayerIssues requiresGrad path (wrapLayer worldSize rank tensors path module) =
      issue ((module.gathered path).flatMap (unwrapTransfers requiresGrad)) ()
  | .mk parameters children => by
      intro unreserved
      rw [wrapLayer, Module.gathered]
      split
      · rw [unwrapLayerIssues]
        exact unwrapLayersIssues_wrapLayers path children unreserved.2
      · rw [unwrapLayerIssues, List.flatMap_singleton, unwrapTransfers]
        exact forEach_issue _ _ _ (unwrapParameterIssues_kept worldSize rank tensors requiresGrad
          path parameters unreserved.1)

theorem unwrapLayersIssues_wrapLayers (path : Path) : ∀ children : Children,
    children.Everywhere (fun _ parameters _ => ∀ name ∈ parameters.keys, ¬ shardPrefix <+: name)
      path →
    unwrapLayersIssues requiresGrad path (wrapLayers worldSize rank tensors path [] children) =
      issue ((children.gathered path).flatMap (unwrapTransfers requiresGrad)) ()
  | .nil => fun _ => by
      rw [wrapLayers, unwrapLayersIssues, Children.gathered, List.flatMap_nil]
  | .cons name child rest => by
      intro unreserved
      rw [wrapLayers, if_neg List.not_mem_nil, unwrapLayersIssues, Children.gathered,
        List.flatMap_append, unwrapLayerIssues_wrapLayer (path ++ [name]) child unreserved.1,
        unwrapLayersIssues_wrapLayers path rest unreserved.2]
      rfl

end

end Unwrapping

end ScalarLM.Training
