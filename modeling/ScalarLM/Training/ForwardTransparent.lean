import ScalarLM.Training.ForwardRefines

/-! FSDP wrapping is transparent to the forward pass as long as the ranks come by the same
layers, no child is called that has made room for a shard, and the backward pass leaves the
layers again in which it stops a recomputation. -/

namespace ScalarLM.Training

open ScalarLM.Computation Transition
open Lockstep (Agree)
open Loop (Transfer)

section Spec

variable {α : Type}

/-- Every module has the parameters registered that wrapping left, and every wrapped
parameter's attribute is the local shard again. -/
structure Settled (root : Module) (state : ProcessState α) : Prop where
  saves : state.saves = none
  parameters : ∀ path, (state.modules path).parameters =
    (wrappedModule root path : ModuleState α).parameters
  attributes : ∀ path name, (state.modules path).attributes.get? name =
    (wrappedModule root path : ModuleState α).attributes.get? name

def IsLayer (root : Module) (path : Path) : Prop :=
  ∃ parameters, root.parametersAt path = some parameters ∧
    ¬ (path = [] ∨ parameters.entries.isEmpty)

def Call.input {V : Type} : Call V → Option V
  | .forward input => some input
  | .forwardBackward input _ => some input
  | .unwrapModel => none

def Call.steps {V : Type} : Call V → List (BackwardStep V)
  | .forwardBackward _ steps => steps
  | _ => []

variable {β V : Type} [Zero α] (toFloat32 : α → β) (toOrigDtype : β → α) (worldSize : Nat)
  (network : Network α V) (elementSize : Nat → Nat)

/-- What the plain model returns with the gathers of the current shards. -/
def plainForward (shards : Nat → Shards worldSize network.model) (rank : Nat) (input : V) :
    Option V :=
  network.model.root.plainForward toFloat32 toOrigDtype worldSize network.model network.forward
    shards rank [] input

def Returns (ranks : Ranks α worldSize network.model) :
    FsdpEvent V worldSize network.model → Prop
  | .assign _ => True
  | .call calls => ∀ rank < worldSize, ∀ input, (calls rank).input = some input →
      ∃ value, plainForward toFloat32 toOrigDtype worldSize network ranks.shards rank input =
          some value ∧
        ranks.returned toFloat32 toOrigDtype worldSize network elementSize calls rank =
          some (.value value)

/-- No rank is left waiting, the forward passes return the right values, and the modules are
as before. -/
structure Transparent (ranks : Ranks α worldSize network.model)
    (event : FsdpEvent V worldSize network.model) : Prop where
  returns : Returns toFloat32 toOrigDtype worldSize network elementSize ranks event
  meets : (fsdpStep toFloat32 toOrigDtype worldSize network elementSize ranks event).waiting =
    false
  settled : ∀ rank < worldSize, Settled network.model.root
    ((fsdpStep toFloat32 toOrigDtype worldSize network elementSize ranks event).processes rank)

/-- Where a recomputation is stopped in the layer, a later step of the backward pass leaves
it: its hook, or a recomputation that gets through it. -/
def LeftLater (layer : Path) : List (List Visit) → Prop
  | [] => True
  | visits :: later =>
      (LeftOpen layer visits → ∃ other ∈ later, .left layer ∈ other) ∧ LeftLater layer later

/-- What the plain model comes by in the calls of all ranks makes wrapping harmless. -/
structure Harmless (ranks : Ranks α worldSize network.model) (calls : Nat → Call V) : Prop where
  kept : ∀ rank < worldSize, NoneReplaced (callVisits toFloat32 toOrigDtype worldSize network
    elementSize ranks.shards rank (calls rank))
  together : Agree worldSize fun rank => (callVisits toFloat32 toOrigDtype worldSize network
    elementSize ranks.shards rank (calls rank)).flatMap Visit.transfers
  left : ∀ rank < worldSize, ∀ layer, IsLayer network.model.root layer → LeftLater layer
    ((calls rank).steps.map
      (backwardVisits toFloat32 toOrigDtype worldSize network elementSize ranks.shards rank))

def HarmlessEvent (ranks : Ranks α worldSize network.model) :
    FsdpEvent V worldSize network.model → Prop
  | .assign _ => True
  | .call calls => Harmless toFloat32 toOrigDtype worldSize network elementSize ranks calls

end Spec

section Layers

variable {α β : Type} [Zero α] (toFloat32 : α → β) (toOrigDtype : β → α) (worldSize : Nat)
  (model : Model α) (shards : Nat → Shards worldSize model) (rank : Nat)

theorem attributeWhile_closed (value : Attribute α) :
    attributeWhile toFloat32 toOrigDtype worldSize model shards rank false value = some value := by
  cases value with
  | memory slot =>
      cases slot with
      | whole parameter => rfl
      | shard place parameter => rfl
  | full tensor => rfl

theorem related_closed (state : ProcessState α) (settled : Settled model.root state) :
    Related toFloat32 toOrigDtype worldSize model shards rank state .closed where
  saves := settled.saves
  parameters := settled.parameters
  attributes := by
    intro path name
    rw [settled.attributes]
    cases (wrappedModule model.root path : ModuleState α).attributes.get? name with
    | none => rfl
    | some value =>
        exact (attributeWhile_closed toFloat32 toOrigDtype worldSize model shards rank value).symm

omit [Zero α] in
theorem wrappedModule_unset (root : Module) (path : Path) (outside : ¬ IsLayer root path)
    (name : Name) : (wrappedModule root path : ModuleState α).attributes.get? name = none := by
  cases here : root.parametersAt path with
  | none =>
      rw [wrappedModule, here]
      rfl
  | some parameters =>
      by_cases plain : path = [] ∨ parameters.entries.isEmpty
      · rw [wrappedModule_plain root path parameters here plain]
        rfl
      · exact absurd ⟨parameters, here, plain⟩ outside

theorem settled_iff {state : ProcessState α} {layers : OpenLayers}
    (running : Running layers)
    (related : Related toFloat32 toOrigDtype worldSize model shards rank state layers) :
    Settled model.root state ↔
      ∀ path, IsLayer model.root path → layers.opened path = false := by
  constructor
  · intro settled path layer
    obtain ⟨parameters, here, wrapped⟩ := layer
    have filled : ∃ entry, entry ∈ ownParameters parameters := by
      cases entries : parameters.entries with
      | nil => exact absurd (Or.inr (by rw [entries]; rfl)) wrapped
      | cons entry rest =>
          obtain ⟨first, kept, _⟩ := exists_firstBy Prod.snd [] parameters.entries entry
            (by rw [entries]; exact List.mem_cons_self) List.not_mem_nil
          exact ⟨first, kept⟩
    obtain ⟨⟨name, parameter⟩, own⟩ := filled
    have set := (mem_shardAttributes (α := α) path parameters name _).mpr ⟨parameter, own, rfl⟩
    have shown := settled.attributes path name
    rw [related_attributes toFloat32 toOrigDtype worldSize model shards rank here wrapped related,
      wrappedModule_wrapped model.root path parameters here wrapped, set, Option.bind_some,
      attributeWhile] at shown
    by_contra opened
    rw [if_pos (Bool.not_eq_false _ ▸ opened)] at shown
    obtain ⟨full, _, same⟩ := Option.map_eq_some_iff.mp shown
    cases same
  · intro closed
    refine ⟨related.saves.trans running, related.parameters, ?_⟩
    intro path name
    rw [related.attributes]
    by_cases layer : IsLayer model.root path
    · rw [closed path layer]
      cases (wrappedModule model.root path : ModuleState α).attributes.get? name with
      | none => rfl
      | some value =>
          exact attributeWhile_closed toFloat32 toOrigDtype worldSize model shards rank value
    · rw [wrappedModule_unset model.root path layer name]
      rfl

omit [Zero α] in
theorem Children.everywhere_get? {property : Path → Dict Name Nat → Children → Prop}
    {path : Path} {name : Name} {child : Module} (children : Children)
    (holds : children.Everywhere property path) (found : children.get? name = some child) :
    child.Everywhere property (path ++ [name]) := by
  cases children with
  | nil => cases found
  | cons other head rest =>
      rw [Children.get?] at found
      by_cases same : other = name
      · rw [if_pos same, Option.some.injEq] at found
        rw [← found, ← same]
        exact holds.1
      · rw [if_neg same] at found
        exact Children.everywhere_get? rest holds.2 found

omit [Zero α] in
theorem Module.everywhere_parametersAt {property : Path → Dict Name Nat → Children → Prop}
    (place : Path) : ∀ (tail : Path) (module : Module) (parameters : Dict Name Nat),
    module.Everywhere property place → module.parametersAt tail = some parameters →
      ∃ children, property (place ++ tail) parameters children := by
  intro tail
  induction tail generalizing place with
  | nil =>
      intro module parameters holds found
      cases module with
      | mk own children =>
          rw [Module.parametersAt, Option.some.injEq] at found
          subst found
          rw [List.append_nil]
          exact ⟨children, holds.1⟩
  | cons name tail ih =>
      intro module parameters holds found
      cases module with
      | mk own children =>
          rw [Module.parametersAt, Option.bind_eq_some_iff] at found
          obtain ⟨child, here, later⟩ := found
          obtain ⟨below, holdsBelow⟩ := ih (place ++ [name]) child parameters
            (Children.everywhere_get? children holds.2 here) later
          rw [List.append_assoc] at holdsBelow
          exact ⟨below, holdsBelow⟩

omit [Zero α] in
theorem forEach_free_unmarked (path : Path) (entries : List (Name × Slot))
    (unmarked : ∀ entry ∈ entries, ¬ shardPrefix <+: entry.1) (state : ProcessState α) :
    forEach (freeParameter path) entries state = ⟨[], state, .ok ()⟩ := by
  induction entries with
  | nil => rfl
  | cons entry rest ih =>
      rw [List.forall_mem_cons] at unmarked
      have first : freeParameter (α := α) path entry state = ⟨[], state, .ok ()⟩ := by
        rw [freeParameter, if_neg unmarked.1]
        rfl
      rw [forEach, andThen_ok (by rw [first]), first, ih unmarked.2]
      rfl

theorem freeParams_outside {state : ProcessState α} {layers : OpenLayers}
    (unreserved : model.root.Everywhere (fun _ parameters _ =>
      ∀ name ∈ parameters.keys, ¬ shardPrefix <+: name) [])
    (path : Path) (outside : ¬ IsLayer model.root path)
    (related : Related toFloat32 toOrigDtype worldSize model shards rank state layers) :
    freeParams path state = ⟨[], state, .ok ()⟩ := by
  refine forEach_free_unmarked path _ ?_ state
  intro entry kept
  have registered : entry ∈ (state.modules path).parameters.entries := firstBy_subset _ _ _ _ kept
  rw [related.parameters] at registered
  cases here : model.root.parametersAt path with
  | none =>
      rw [wrappedModule, here] at registered
      cases registered
  | some parameters =>
      by_cases plain : path = [] ∨ parameters.entries.isEmpty
      · obtain ⟨_, names⟩ := Module.everywhere_parametersAt [] path model.root parameters
          unreserved here
        rw [wrappedModule_plain model.root path parameters here plain] at registered
        obtain ⟨source, member, _⟩ := (Dict.mem_mapValues _ _ entry.1 entry.2).mp registered
        exact names entry.1 (List.mem_map.mpr ⟨_, member, rfl⟩)
      · exact absurd ⟨parameters, here, plain⟩ outside

end Layers

section Calls

variable {α β V : Type} [Zero α] (toFloat32 : α → β) (toOrigDtype : β → α) (worldSize : Nat)
  (network : Network α V) (elementSize : Nat → Nat)
  (shards : Nat → Shards worldSize network.model) (rank : Nat) (positive : 1 ≤ worldSize)
  (bound : rank < worldSize)

theorem hook_simulates (layer : Path) :
    Simulates (Resting toFloat32 toOrigDtype worldSize network.model shards rank)
      (freeParams layer) (leave layer) := by
  refine simulates_and (fun _ running => running) ?_
  by_cases inside : IsLayer network.model.root layer
  · obtain ⟨parameters, here, wrapped⟩ := inside
    obtain ⟨_, names⟩ := Module.everywhere_parametersAt [] layer network.model.root parameters
      network.unreserved here
    exact free_simulates toFloat32 toOrigDtype worldSize network.model shards rank here wrapped
      names
  · intro state layers related
    rw [freeParams_outside toFloat32 toOrigDtype worldSize network.model shards rank
      network.unreserved layer inside related]
    refine ⟨rfl, rfl, related.saves, related.parameters, ?_⟩
    intro path name
    rw [related.attributes]
    by_cases same : path = layer
    · rw [same, wrappedModule_unset network.model.root layer inside name]
      rfl
    · have unmarked : ((leave layer) layers).state.opened path = layers.opened path :=
        if_neg same
      rw [unmarked]

include positive bound

theorem forward_follows (input : V) :
    ∃ value, plainForward toFloat32 toOrigDtype worldSize network shards rank input = some value ∧
      Follows (Resting toFloat32 toOrigDtype worldSize network.model shards rank)
        (simpleForward toFloat32 toOrigDtype worldSize network shards rank input)
        (forwardVisits toFloat32 toOrigDtype worldSize network shards rank input) value := by
  have sound := network.sound
  rw [simpleForward, wrappedModel, simpleFSDP, plainForward, forwardVisits, Wrapped.call]
  generalize root : network.model.root = module at sound
  cases module with
  | mk parameters children =>
      have here : network.model.root.parametersAt [] = some parameters := by
        rw [root]
        rfl
      obtain ⟨value, plain, follows⟩ := body_follows toFloat32 toOrigDtype worldSize network.model
        network.forward shards rank positive bound here sound.1
        (fun child => by simp : Taken [] parameters []) (fun child member value =>
          wrapLayers_follows toFloat32 toOrigDtype worldSize network.model network.forward shards
            rank positive bound [] [] child children (fun tail => by rw [root]; rfl) sound.2
            member value) input
      refine ⟨value, plain, simulates_and ?_ ?_⟩
      · intro layers running
        rw [state_andThen_returns]
        exact forEach_come_running _ layers running
      · rw [Module.visits, if_pos (Or.inl rfl)]
        exact unlayered_follows toFloat32 toOrigDtype worldSize network.model shards rank
          (Or.inl rfl) follows

theorem backward_follows (step : BackwardStep V) :
    Simulates (Resting toFloat32 toOrigDtype worldSize network.model shards rank)
      (backwardStep toFloat32 toOrigDtype worldSize network elementSize shards rank step)
      (forEach come
        (backwardVisits toFloat32 toOrigDtype worldSize network elementSize shards rank step)) := by
  cases step with
  | hook layer =>
      have last : forEach come [.left layer] = leave layer := andThen_returns (leave layer)
      rw [backwardStep, backwardVisits, last]
      exact hook_simulates toFloat32 toOrigDtype worldSize network shards rank layer
  | recompute layer input saves =>
      rw [backwardStep, backwardVisits]
      split
      · rename_i member
        have sound := network.sound
        have formed := network.model.wellFormed
        rw [checkpointedLayers] at member
        rw [wrappedModel, simpleFSDP, Wrapped.recompute, layerVisits]
        cases root : network.model.root with
        | mk parameters children =>
            have below : network.model.root.children = children := by rw [root]; rfl
            rw [below] at member
            rw [root] at sound formed
            have follows := recomputes_follows toFloat32 toOrigDtype worldSize network.model
              network.forward shards rank positive bound elementSize layer saves [] [] children
              (fun wanted _ tail => by rw [root]; rfl) sound.2 formed.2 member input
            rw [root] at follows
            exact follows
      · exact simulates_returns ()
  | reduceScatter parameter =>
      have last : forEach come [.passed (.reduceScatter parameter)] =
          issues (.reduceScatter parameter) :=
        andThen_returns (issues (Transfer.reduceScatter parameter) : Layered Unit)
      rw [backwardStep, backwardVisits, last]
      exact simulates_issues _

def ends {ρ : Type} (result : Except Cause ρ) : Layered ρ := fun layers => ⟨[], layers, result⟩

omit positive bound in
theorem unwrapCall_follows :
    ∃ result, Simulates (Resting toFloat32 toOrigDtype worldSize network.model shards rank)
      (unwrapCall toFloat32 toOrigDtype worldSize network shards rank)
      ((forEach come (callVisits toFloat32 toOrigDtype worldSize network elementSize shards rank
        (.unwrapModel : Call V))).andThen fun _ => ends result) := by
  refine ⟨(unwrapCall toFloat32 toOrigDtype worldSize network shards rank
    OpenLayers.closed).result, ?_⟩
  intro state layers rest
  have issued := unwrapLayersIssues_wrapLayers worldSize rank network.model.tensors
    network.model.trainable [] network.model.root.children (by
      have unreserved := network.unreserved
      cases root : network.model.root with
      | mk parameters children =>
          rw [root] at unreserved
          exact unreserved.2)
  have passes (transfers : List Transfer) :
      forEach come (transfers.map .passed) layers = ⟨transfers, layers, .ok ()⟩ := by
    induction transfers with
    | nil => rfl
    | cons transfer later ih =>
        have first : come (.passed transfer) layers = ⟨[transfer], layers, .ok ()⟩ := rfl
        rw [List.map_cons, forEach, andThen_ok (congrArg Ran.result first), first, ih]
        rfl
  rw [unwrapCall, callVisits, andThen_ok (congrArg Ran.result (passes _)), passes]
  refine ⟨?_, rfl, rest⟩
  rw [wrappedModel, simpleFSDP, Wrapped.children, issued]
  exact (List.append_nil _).symm

theorem call_follows (call : Call V) :
    ∃ result, (∀ input, call.input = some input →
        ∃ value, plainForward toFloat32 toOrigDtype worldSize network shards rank input =
          some value ∧ result = .ok (.value value)) ∧
      Simulates (Resting toFloat32 toOrigDtype worldSize network.model shards rank)
        (callProcess toFloat32 toOrigDtype worldSize network elementSize shards rank call)
        ((forEach come (callVisits toFloat32 toOrigDtype worldSize network elementSize shards rank
          call)).andThen fun _ => ends result) := by
  have forward := forward_follows toFloat32 toOrigDtype worldSize network shards rank positive
    bound
  cases call with
  | forward input =>
      obtain ⟨value, plain, follows⟩ := forward input
      refine ⟨.ok (.value value), ?_, ?_⟩
      · intro other given
        cases given
        exact ⟨value, plain, rfl⟩
      · have split : ((forEach come (forwardVisits toFloat32 toOrigDtype worldSize network shards
            rank input)).andThen fun _ => ends (.ok (.value value))) =
            ((forEach come (forwardVisits toFloat32 toOrigDtype worldSize network shards rank
              input)).andThen fun _ => returns value).andThen fun result =>
                returns (Output.value result : Output α V) := by
          simp only [andThen_assoc, returns_andThen]
          rfl
        rw [callVisits, split]
        exact simulates_andThen follows fun result => simulates_returns _
  | forwardBackward input steps =>
      obtain ⟨value, plain, follows⟩ := forward input
      refine ⟨.ok (.value value), ?_, ?_⟩
      · intro other given
        cases given
        exact ⟨value, plain, rfl⟩
      · have split : ((forEach come (forwardVisits toFloat32 toOrigDtype worldSize network shards
            rank input ++ steps.flatMap (backwardVisits toFloat32 toOrigDtype worldSize network
              elementSize shards rank))).andThen fun _ => ends (.ok (.value value))) =
            ((forEach come (forwardVisits toFloat32 toOrigDtype worldSize network shards rank
              input)).andThen fun _ => returns value).andThen fun result =>
                (forEach (fun step => forEach come (backwardVisits toFloat32 toOrigDtype worldSize
                  network elementSize shards rank step)) steps).andThen fun _ =>
                    returns (Output.value result : Output α V) := by
          rw [forEach_append, forEach_flatMap]
          simp only [andThen_assoc, returns_andThen]
          rfl
        rw [callVisits, split]
        refine simulates_andThen follows fun result => ?_
        refine simulates_andThen (simulates_forEach _ _ steps ?_) fun _ => simulates_returns _
        exact fun step _ => backward_follows toFloat32 toOrigDtype worldSize network elementSize
          shards rank positive bound step
  | unwrapModel =>
      obtain ⟨result, follows⟩ := unwrapCall_follows toFloat32 toOrigDtype worldSize network
        elementSize shards rank
      refine ⟨result, ?_, follows⟩
      intro input given
      cases given

end Calls

section Balance

theorem leftLater_iff (layer : Path) (steps : List (List Visit)) (layers : OpenLayers) :
    (steps.flatten.foldl OpenLayers.visited layers).opened layer = false ↔
      (layers.opened layer = true → ∃ visits ∈ steps, .left layer ∈ visits) ∧
        LeftLater layer steps := by
  induction steps generalizing layers with
  | nil => simp [LeftLater]
  | cons visits later ih =>
      rw [List.flatten_cons, List.foldl_append, ih, foldl_visited_opened, LeftLater]
      simp only [List.mem_cons, exists_eq_or_imp]
      tauto

variable {α β V : Type} [Zero α] (toFloat32 : α → β) (toOrigDtype : β → α) (worldSize : Nat)
  (network : Network α V) (elementSize : Nat → Nat)
  (shards : Nat → Shards worldSize network.model) (rank : Nat)

/-- A call leaves a layer closed exactly when the layer is left later than a recomputation is
stopped in it. -/
theorem call_closes_iff (layer : Path) (call : Call V) :
    ((callVisits toFloat32 toOrigDtype worldSize network elementSize shards rank call).foldl
        OpenLayers.visited .closed).opened layer = false ↔
      LeftLater layer (call.steps.map
        (backwardVisits toFloat32 toOrigDtype worldSize network elementSize shards rank)) := by
  have forward (input : V) : ((forwardVisits toFloat32 toOrigDtype worldSize network shards rank
      input).foldl OpenLayers.visited .closed).opened layer = false := by
    rw [← Bool.not_eq_true, foldl_visited_opened]
    rintro (opened | ⟨before, _⟩)
    · exact network.model.root.visits_left toFloat32 toOrigDtype worldSize network.model
        network.forward shards rank layer [] input opened
    · cases before
  cases call with
  | forward input => exact iff_of_true (forward input) trivial
  | forwardBackward input steps =>
      rw [callVisits, List.foldl_append, List.flatMap_def, leftLater_iff, forward input, Call.steps]
      exact and_iff_right fun opened => absurd opened Bool.false_ne_true
  | unwrapModel =>
      refine iff_of_true ?_ trivial
      rw [callVisits]
      generalize List.flatMap _ _ = transfers
      induction transfers with
      | nil => rfl
      | cons transfer later ih => exact ih

end Balance

section Runs

variable {α β V : Type} [Zero α] (toFloat32 : α → β) (toOrigDtype : β → α) (worldSize : Nat)
  (network : Network α V) (elementSize : Nat → Nat) (positive : 1 ≤ worldSize)

/-- Between two calls: nobody waits, and no layer is open. -/
structure Between (ranks : Ranks α worldSize network.model) : Prop where
  meets : ranks.waiting = false
  settled : ∀ rank < worldSize, Settled network.model.root (ranks.processes rank)

omit [Zero α] in
theorem between_start (shards : Nat → Shards worldSize network.model) :
    Between worldSize network (Ranks.start worldSize network shards) where
  meets := rfl
  settled := fun _ _ => ⟨rfl, fun _ => rfl, fun _ _ => rfl⟩

variable {ranks : Ranks α worldSize network.model} (between : Between worldSize network ranks)
  (calls : Nat → Call V)

structure Ranks.Done (rank : Nat) : Prop where
  issued : (ranks.run toFloat32 toOrigDtype worldSize network elementSize calls rank).issued =
    (callVisits toFloat32 toOrigDtype worldSize network elementSize ranks.shards rank
      (calls rank)).flatMap Visit.transfers
  resting : Resting toFloat32 toOrigDtype worldSize network.model ranks.shards rank
    (ranks.run toFloat32 toOrigDtype worldSize network elementSize calls rank).state
    ((callVisits toFloat32 toOrigDtype worldSize network elementSize ranks.shards rank
      (calls rank)).foldl OpenLayers.visited .closed)
  returned : ∀ input, (calls rank).input = some input →
    ∃ value, plainForward toFloat32 toOrigDtype worldSize network ranks.shards rank input =
        some value ∧
      (ranks.run toFloat32 toOrigDtype worldSize network elementSize calls rank).result =
        .ok (.value value)

include positive between

theorem run_done (rank : Nat) (bound : rank < worldSize)
    (kept : NoneReplaced (callVisits toFloat32 toOrigDtype worldSize network elementSize
      ranks.shards rank (calls rank))) :
    ranks.Done toFloat32 toOrigDtype worldSize network elementSize calls rank := by
  obtain ⟨result, given, follows⟩ := call_follows toFloat32 toOrigDtype worldSize network
    elementSize ranks.shards rank positive bound (calls rank)
  have ran := forEach_come _ .closed rfl kept
  obtain ⟨issued, returned, resting⟩ := follows (ranks.processes rank) .closed
    ⟨related_closed toFloat32 toOrigDtype worldSize network.model ranks.shards rank _
      (between.settled rank bound), rfl⟩
  rw [andThen_ok (congrArg Ran.result ran), ran] at issued returned resting
  refine ⟨issued.trans (List.append_nil _), resting, ?_⟩
  intro input asked
  obtain ⟨value, plain, same⟩ := given input asked
  exact ⟨value, plain, returned.trans same⟩

theorem run_raises (rank : Nat) (bound : rank < worldSize)
    (replaced : ¬ NoneReplaced (callVisits toFloat32 toOrigDtype worldSize network elementSize
      ranks.shards rank (calls rank))) :
    (ranks.run toFloat32 toOrigDtype worldSize network elementSize calls rank).result =
      .error .raised := by
  obtain ⟨result, _, follows⟩ := call_follows toFloat32 toOrigDtype worldSize network
    elementSize ranks.shards rank positive bound (calls rank)
  have ran := forEach_come_raises _ .closed rfl replaced
  obtain ⟨_, returned, _⟩ := follows (ranks.processes rank) .closed
    ⟨related_closed toFloat32 toOrigDtype worldSize network.model ranks.shards rank _
      (between.settled rank bound), rfl⟩
  rw [andThen_error ran] at returned
  exact returned

omit positive in
theorem fsdpStep_meet
    (meet : ranks.Meet toFloat32 toOrigDtype worldSize network elementSize calls) :
    fsdpStep toFloat32 toOrigDtype worldSize network elementSize ranks (.call calls) =
      { ranks with
        processes := fun rank =>
          (ranks.run toFloat32 toOrigDtype worldSize network elementSize calls rank).state } := by
  rw [fsdpStep, between.meets, if_neg Bool.false_ne_true, if_pos meet]

omit positive in
theorem fsdpStep_apart
    (apart : ¬ ranks.Meet toFloat32 toOrigDtype worldSize network elementSize calls) :
    fsdpStep toFloat32 toOrigDtype worldSize network elementSize ranks (.call calls) =
      { ranks with waiting := true } := by
  rw [fsdpStep, between.meets, if_neg Bool.false_ne_true, if_neg apart]

theorem kept_of_returns
    (returns : Returns toFloat32 toOrigDtype worldSize network elementSize ranks (.call calls))
    (rank : Nat) (bound : rank < worldSize) :
    NoneReplaced (callVisits toFloat32 toOrigDtype worldSize network elementSize ranks.shards rank
      (calls rank)) := by
  by_contra replaced
  cases given : (calls rank).input with
  | some input =>
      obtain ⟨value, _, returned⟩ := returns rank bound input given
      rw [Ranks.returned, run_raises toFloat32 toOrigDtype worldSize network elementSize positive
        between calls rank bound replaced] at returned
      split at returned
      · cases returned
      · cases returned
  | none =>
      refine replaced fun child member => ?_
      cases call : calls rank with
      | forward input =>
          rw [call] at given
          cases given
      | forwardBackward input steps =>
          rw [call] at given
          cases given
      | unwrapModel =>
          rw [call, callVisits] at member
          obtain ⟨transfer, _, same⟩ := List.mem_map.mp member
          cases same

section Kept

variable (kept : ∀ rank < worldSize, NoneReplaced (callVisits toFloat32 toOrigDtype worldSize
  network elementSize ranks.shards rank (calls rank)))

include kept

theorem meet_iff :
    ranks.Meet toFloat32 toOrigDtype worldSize network elementSize calls ↔
      Agree worldSize fun rank => (callVisits toFloat32 toOrigDtype worldSize network elementSize
        ranks.shards rank (calls rank)).flatMap Visit.transfers := by
  have issued := fun rank bound => (run_done toFloat32 toOrigDtype worldSize network elementSize
    positive between calls rank bound (kept rank bound)).issued
  constructor
  · intro agree rank below other within
    dsimp only
    rw [← issued rank below, ← issued other within]
    exact agree rank below other within
  · intro agree rank below other within
    dsimp only
    rw [issued rank below, issued other within]
    exact agree rank below other within

theorem settled_after (rank : Nat) (bound : rank < worldSize) :
    Settled network.model.root
        (ranks.run toFloat32 toOrigDtype worldSize network elementSize calls rank).state ↔
      ∀ layer, IsLayer network.model.root layer → LeftLater layer ((calls rank).steps.map
        (backwardVisits toFloat32 toOrigDtype worldSize network elementSize ranks.shards
          rank)) := by
  obtain ⟨related, running⟩ := (run_done toFloat32 toOrigDtype worldSize network elementSize
    positive between calls rank bound (kept rank bound)).resting
  rw [settled_iff toFloat32 toOrigDtype worldSize network.model ranks.shards rank running related]
  exact forall_congr' fun layer => imp_congr_right fun _ => call_closes_iff toFloat32 toOrigDtype
    worldSize network elementSize ranks.shards rank layer (calls rank)

theorem returns_of_meet
    (meet : ranks.Meet toFloat32 toOrigDtype worldSize network elementSize calls) :
    Returns toFloat32 toOrigDtype worldSize network elementSize ranks (.call calls) := by
  intro rank bound input given
  obtain ⟨value, plain, returned⟩ := (run_done toFloat32 toOrigDtype worldSize network elementSize
    positive between calls rank bound (kept rank bound)).returned input given
  refine ⟨value, plain, ?_⟩
  rw [Ranks.returned, if_pos ⟨between.meets, meet⟩, returned]
  rfl

end Kept

/-- One event is transparent exactly when it is harmless. -/
theorem transparent_iff (event : FsdpEvent V worldSize network.model) :
    Transparent toFloat32 toOrigDtype worldSize network elementSize ranks event ↔
      HarmlessEvent toFloat32 toOrigDtype worldSize network elementSize ranks event := by
  cases event with
  | assign shards =>
      exact ⟨fun _ => trivial, fun _ => ⟨trivial, between.meets, between.settled⟩⟩
  | call calls =>
      constructor
      · intro transparent
        have kept := kept_of_returns toFloat32 toOrigDtype worldSize network elementSize positive
          between calls transparent.returns
        have meet : ranks.Meet toFloat32 toOrigDtype worldSize network elementSize calls := by
          by_contra apart
          have waits := transparent.meets
          rw [fsdpStep_apart toFloat32 toOrigDtype worldSize network elementSize between calls
            apart] at waits
          cases waits
        refine ⟨kept, (meet_iff toFloat32 toOrigDtype worldSize network elementSize positive
          between calls kept).mp meet, fun rank bound => ?_⟩
        have after := transparent.settled rank bound
        rw [fsdpStep_meet toFloat32 toOrigDtype worldSize network elementSize between calls
          meet] at after
        exact (settled_after toFloat32 toOrigDtype worldSize network elementSize positive between
          calls kept rank bound).mp after
      · intro harmless
        have meet := (meet_iff toFloat32 toOrigDtype worldSize network elementSize positive
          between calls harmless.kept).mpr harmless.together
        have after := fsdpStep_meet toFloat32 toOrigDtype worldSize network elementSize between
          calls meet
        refine ⟨returns_of_meet toFloat32 toOrigDtype worldSize network elementSize positive
          between calls harmless.kept meet, ?_, ?_⟩
        · rw [after]
          exact between.meets
        · intro rank bound
          rw [after]
          exact (settled_after toFloat32 toOrigDtype worldSize network elementSize positive
            between calls harmless.kept rank bound).mpr (harmless.left rank bound)

end Runs

/-- Wrapping is transparent in a whole run exactly when every call of it is harmless. -/
theorem forward_transparent_iff {α β V : Type} [Zero α] (toFloat32 : α → β)
    (toOrigDtype : β → α) (worldSize : Nat) (positive : 1 ≤ worldSize) (network : Network α V)
    (elementSize : Nat → Nat) (shards : Nat → Shards worldSize network.model)
    (events : List (FsdpEvent V worldSize network.model)) :
    AllSteps (fsdpStep toFloat32 toOrigDtype worldSize network elementSize)
        (Transparent toFloat32 toOrigDtype worldSize network elementSize)
        (Ranks.start worldSize network shards) events ↔
      AllSteps (fsdpStep toFloat32 toOrigDtype worldSize network elementSize)
        (HarmlessEvent toFloat32 toOrigDtype worldSize network elementSize)
        (Ranks.start worldSize network shards) events := by
  refine allSteps_iff _ (Between worldSize network) (fun _ _ => True) _ _ ?_ ?_ _ _
    (between_start worldSize network shards) (allSteps_of_forall _ _ (fun _ _ => trivial) _ _)
  · intro ranks event between _
    exact transparent_iff toFloat32 toOrigDtype worldSize network elementSize positive between
      event
  · intro ranks event _ _ transparent
    exact ⟨transparent.meets, transparent.settled⟩

section Adapter

def zeros (count : Nat) : Tensor Int := ⟨[count], List.replicate count 0, by simp⟩

theorem adapterNames_nodup : ([(['p'], 0)].map (Prod.fst : Name × Nat → Name)).Nodup :=
  List.nodup_singleton _

def adapterParameters : Dict Name Nat := ⟨[(['p'], 0)], adapterNames_nodup⟩

def adapterChildren : Children := .cons ['b'] (.mk .empty .nil) .nil

/-- An adapter `a` with a parameter `p` around a module `b`; the parameter has so many
entries. -/
def adapterModel (count : Nat) : Model Int where
  root := .mk .empty (.cons ['a'] (.mk adapterParameters adapterChildren) .nil)
  parameters := fun _ => ⟨zeros count, true⟩
  wellFormed := by
    simp [Module.WellFormed, Children.WellFormed, Children.names, Dict.keys, Dict.empty,
      adapterParameters, adapterChildren]

/-- The adapter uses its parameter in one operation, which keeps a tensor. -/
def adapterForward : Path → ForwardFunction Int Unit
  | [], input => .ask (.call ['a'] input) .done
  | [['a']], input => .ask (.read ['p']) fun _ => .ask .save fun _ => .done input
  | _, input => .done input

def adapterNetwork (count : Nat) : Network Int Unit where
  model := adapterModel count
  forward := adapterForward
  offered := by
    simp [adapterModel, adapterChildren, Module.Everywhere, Children.Everywhere, adapterForward,
      Program.Within, Offered, Children.names, Dict.keys, adapterParameters]
  unreserved := by
    simp [adapterModel, adapterChildren, Module.Everywhere, Children.Everywhere, Dict.empty,
      Dict.keys, adapterParameters]
    decide

def blankShards (worldSize : Nat) (model : Model Int) : Shards worldSize model where
  values slot := ⟨slotShape worldSize model slot,
    List.replicate (slotShape worldSize model slot).prod 0, List.length_replicate⟩
  shaped _ := rfl

theorem adapter_checkpointed (count : Nat) (large : 32 * 1024 ^ 3 < count * 4) :
    [['a']] ∈ checkpointedLayers (adapterModel count) fun _ => 4 := by
  have footprint : getModelMemoryFootprint (adapterModel count) (fun _ => 4) = count * 4 := by
    simp [getModelMemoryFootprint, adapterModel, adapterChildren, adapterParameters,
      Model.namedParameters, Module.members, Children.members, firstBy, Dict.empty,
      Model.tensors, zeros, Tensor.numel]
  have gather : shouldCheckpoint (adapterModel count) (fun _ => 4) adapterParameters
      adapterChildren = true := by
    rw [shouldCheckpoint, footprint, decide_eq_true large]
    rfl
  have filled : ¬ adapterParameters.entries.isEmpty := by decide
  change _ ∈ Children.checkpointed _ _ _ _ (.cons ['a'] (.mk _ _) .nil)
  rw [Children.checkpointed, if_neg List.not_mem_nil, Module.checkpointed, if_neg filled,
    if_pos gather]
  exact List.mem_cons_self

section Visits

variable (worldSize count rank : Nat) (shards : Nat → Shards worldSize (adapterModel count))
  (positive : 1 ≤ worldSize) (bound : rank < worldSize)

include positive bound

theorem adapter_visits :
    Module.visits id (id : Int → Int) worldSize (adapterModel count) adapterForward shards rank
        [['a']] (.mk adapterParameters adapterChildren) () =
      [.entered [['a']] adapterParameters, .kept, .left [['a']]] := by
  obtain ⟨full, read⟩ := Option.isSome_iff_exists.mp (currentParameter_isSome id (id : Int → Int)
    worldSize (adapterModel count) shards rank positive bound [['a']] adapterParameters ['p']
    List.mem_cons_self)
  have filled : ¬ ([['a']] = [] ∨ adapterParameters.entries.isEmpty) := by decide
  rw [Module.visits, if_neg filled]
  simp only [adapterForward, Program.trace, plainAnswers, read, askVisits]
  rfl

theorem adapter_forwardVisits :
    forwardVisits id (id : Int → Int) worldSize (adapterNetwork count) shards rank () =
      [.entered [['a']] adapterParameters, .kept, .left [['a']]] := by
  rw [← adapter_visits worldSize count rank shards positive bound]
  change Module.visits id id worldSize (adapterModel count) adapterForward shards rank []
    (.mk .empty (.cons ['a'] (.mk adapterParameters adapterChildren) .nil)) () = _
  rw [Module.visits, if_pos (Or.inl rfl)]
  simp only [adapterForward, Program.trace, askVisits, Children.visits, ne_eq, not_true_eq_false,
    false_and, if_false, if_true, List.nil_append]
  cases plainAnswers _ _ (Ask.call ['a'] ()) with
  | none => exact List.append_nil _
  | some value => exact List.append_nil _

theorem adapter_layerVisits :
    layerVisits id (id : Int → Int) worldSize (adapterNetwork count) shards rank [['a']] () =
      [.entered [['a']] adapterParameters, .kept, .left [['a']]] :=
  adapter_visits worldSize count rank shards positive bound

theorem adapter_stopped (large : 32 * 1024 ^ 3 < count * 4) :
    backwardVisits id (id : Int → Int) worldSize (adapterNetwork count) (fun _ => 4) shards rank
        (.recompute [['a']] () 0) = [.entered [['a']] adapterParameters] := by
  have visits := adapter_layerVisits worldSize count rank shards positive bound
  exact (if_pos (adapter_checkpointed count large)).trans (congrArg (upToLast 0) visits)

end Visits

/-- No run in which the hook fires before the recomputation is transparent. -/
theorem adapter_not_transparent (count : Nat) (large : 32 * 1024 ^ 3 < count * 4)
    (shards : Nat → Shards 1 (adapterModel count)) :
    ¬ AllSteps (fsdpStep id (id : Int → Int) 1 (adapterNetwork count) fun _ => 4)
      (Transparent id id 1 (adapterNetwork count) fun _ => 4)
      (Ranks.start 1 (adapterNetwork count) shards)
      [.call fun _ => .forwardBackward () [.hook [['a']], .recompute [['a']] () 0]] := by
  intro steps
  have harmless := (transparent_iff id (id : Int → Int) 1 (adapterNetwork count) (fun _ => 4)
    le_rfl (between_start 1 _ _) _).mp steps.1
  have stopped := adapter_stopped 1 count 0 shards le_rfl (by decide) large
  obtain ⟨_, left, _⟩ := harmless.left 0 (by decide) [['a']] ⟨adapterParameters, rfl, by decide⟩
  have opened : LeftOpen [['a']] (backwardVisits id (id : Int → Int) 1 (adapterNetwork count)
      (fun _ => 4) shards 0 (.recompute [['a']] () 0)) :=
    ⟨[], adapterParameters, [], stopped, List.not_mem_nil⟩
  obtain ⟨other, later, _⟩ := left opened
  cases later

theorem forward_not_transparent :
    ¬ ∀ (worldSize : Nat) (network : Network Int Unit) (elementSize : Nat → Nat)
      (shards : Nat → Shards worldSize network.model)
      (events : List (FsdpEvent Unit worldSize network.model)), 1 ≤ worldSize →
      AllSteps (fsdpStep id (id : Int → Int) worldSize network elementSize)
        (Transparent id id worldSize network elementSize)
        (Ranks.start worldSize network shards) events := by
  intro claimed
  have large : 32 * 1024 ^ 3 < 2 ^ 34 * 4 := by norm_num
  exact adapter_not_transparent (2 ^ 34) large (fun _ => blankShards 1 _)
    (claimed 1 (adapterNetwork (2 ^ 34)) (fun _ => 4) (fun _ => blankShards 1 _) _ le_rfl)

/-- When the hook fires after the recomputation, it leaves the layer. -/
theorem adapter_harmless (count : Nat) (large : 32 * 1024 ^ 3 < count * 4)
    (ranks : Ranks Int 2 (adapterModel count)) :
    Harmless id (id : Int → Int) 2 (adapterNetwork count) (fun _ => 4) ranks fun _ =>
      .forwardBackward () [.recompute [['a']] () 0, .hook [['a']]] := by
  have visits (rank : Nat) (bound : rank < 2) :
      callVisits id (id : Int → Int) 2 (adapterNetwork count) (fun _ => 4) ranks.shards rank
          (.forwardBackward () [.recompute [['a']] () 0, .hook [['a']]]) =
        [.entered [['a']] adapterParameters, .kept, .left [['a']],
          .entered [['a']] adapterParameters, .left [['a']]] := by
    have forward := adapter_forwardVisits 2 count rank ranks.shards (by decide) bound
    have stopped := adapter_stopped 2 count rank ranks.shards (by decide) bound large
    change forwardVisits _ _ _ _ _ _ _ ++ List.flatMap _ _ = _
    rw [forward, List.flatMap_cons, stopped]
    rfl
  refine ⟨?_, ?_, ?_⟩
  · intro rank bound child
    rw [visits rank bound]
    simp
  · intro rank below other within
    dsimp only
    rw [visits rank below, visits other within]
  · intro rank bound layer _
    have stopped := adapter_stopped 2 count rank ranks.shards (by decide) bound large
    refine ⟨fun opened => ⟨[.left layer], ?_, List.mem_cons_self⟩, ?_, trivial⟩
    · rw [stopped, leftOpen_cons] at opened
      rcases opened with nothing | ⟨⟨_, same⟩, _⟩
      · exact absurd nothing (not_leftOpen_nil layer)
      · cases same
        exact List.mem_cons_self
    · intro opened
      rcases (leftOpen_cons layer _ []).mp opened with nothing | ⟨⟨_, same⟩, _⟩
      · exact absurd nothing (not_leftOpen_nil layer)
      · cases same

/-- Two ranks train a large model for a step, are assigned new parameters and train on. -/
theorem forward_transparent_training :
    AllSteps (fsdpStep id (id : Int → Int) 2 (adapterNetwork (2 ^ 34)) fun _ => 4)
      (Transparent id id 2 (adapterNetwork (2 ^ 34)) fun _ => 4)
      (Ranks.start 2 (adapterNetwork (2 ^ 34)) fun _ => blankShards 2 _)
      [.call fun _ => .forwardBackward () [.recompute [['a']] () 0, .hook [['a']]],
        .assign fun _ => blankShards 2 _,
        .call fun _ => .forwardBackward () [.recompute [['a']] () 0, .hook [['a']]]] := by
  have large : 32 * 1024 ^ 3 < 2 ^ 34 * 4 := by norm_num
  exact (forward_transparent_iff id id 2 (by decide) (adapterNetwork (2 ^ 34)) (fun _ => 4)
    (fun _ => blankShards 2 _) _).mpr
      ⟨adapter_harmless _ large _, trivial, adapter_harmless _ large _, trivial⟩

end Adapter

end ScalarLM.Training
