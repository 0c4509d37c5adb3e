import ScalarLM.Adapter.ModelManager

/-! What the manager's calls do to the weights, said once for each call. -/

namespace ScalarLM.Adapter

variable {V : Type} [Zero V] (host : Host V)

/-- The keys that deactivation resets; it must find them in the model. -/
def IsReset (key : Key) : Prop := IsTokenformerP key ∨ IsLmHead key

instance : DecidablePred IsReset := fun _ => inferInstanceAs (Decidable (_ ∨ _))

/-- Deactivating an adapter with these keys gets through. -/
def Completes (keys : List Key) : Prop := ∀ key ∈ keys, IsReset key → key ∈ host.keys

instance (keys : List Key) : Decidable (Completes host keys) :=
  inferInstanceAs (Decidable (∀ key ∈ keys, _))

def reachedTokenformers : List Key → List Key
  | [] => []
  | key :: rest =>
      if IsReset key → key ∈ host.keys then
        if IsTokenformerP key then key :: reachedTokenformers rest else reachedTokenformers rest
      else []

/-- The keys that deactivation really resets. If it raises, no head has been
loaded yet, but the `tokenformer_p` it reached are zero. -/
def clearedKeys (keys : List Key) : List Key :=
  if Completes host keys then keys.filter fun key => IsReset key
  else reachedTokenformers host keys

def resetKeys (keys : List Key) (weights : Key → V) : Key → V := fun key =>
  if key ∈ keys then host.initial key else weights key

@[simp] theorem resetKeys_nil (weights : Key → V) : resetKeys host [] weights = weights := by
  funext key
  exact if_neg List.not_mem_nil

theorem resetKeys_append (front back : List Key) (weights : Key → V) :
    resetKeys host back (resetKeys host front weights) =
      resetKeys host (front ++ back) weights := by
  funext key
  unfold resetKeys
  by_cases late : key ∈ back
  · rw [if_pos late, if_pos (List.mem_append_right _ late)]
  · rw [if_neg late]
    by_cases early : key ∈ front
    · rw [if_pos early, if_pos (List.mem_append_left _ early)]
    · rw [if_neg early, if_neg]
      rw [List.mem_append, not_or]
      exact ⟨early, late⟩

def Manager.reset (keys : List Key) (state : Manager V) : Manager V :=
  { state with weights := resetKeys host keys state.weights }

@[simp] theorem Manager.reset_nil (state : Manager V) : state.reset host [] = state := by
  rw [Manager.reset, resetKeys_nil]

theorem Manager.reset_append (front back : List Key) (state : Manager V) :
    (state.reset host front).reset host back = state.reset host (front ++ back) := by
  simp only [Manager.reset, resetKeys_append]

theorem completes_cons (key : Key) (rest : List Key) :
    Completes host (key :: rest) ↔
      (IsReset key → key ∈ host.keys) ∧ Completes host rest :=
  List.forall_mem_cons

theorem mem_clearedKeys (keys : List Key) (complete : Completes host keys) (key : Key) :
    key ∈ clearedKeys host keys ↔ key ∈ keys ∧ IsReset key := by
  rw [clearedKeys, if_pos complete, List.mem_filter, decide_eq_true_iff]

theorem reachedTokenformers_subset (keys : List Key) :
    ∀ key ∈ reachedTokenformers host keys,
      key ∈ keys ∧ IsTokenformerP key ∧ key ∈ host.keys := by
  induction keys with
  | nil => intro key reached; cases reached
  | cons head rest ih =>
      intro key reached
      rw [reachedTokenformers] at reached
      split at reached
      · rename_i through
        split at reached
        · rename_i tokenformer
          rcases List.mem_cons.mp reached with rfl | later
          · exact ⟨List.mem_cons_self, tokenformer, through (Or.inl tokenformer)⟩
          · exact (ih key later).imp_left (List.mem_cons_of_mem _)
        · exact (ih key reached).imp_left (List.mem_cons_of_mem _)
      · cases reached

theorem clearedKeys_subset (keys : List Key) (key : Key) (cleared : key ∈ clearedKeys host keys) :
    key ∈ keys ∧ IsReset key ∧ key ∈ host.keys := by
  by_cases complete : Completes host keys
  · obtain ⟨member, resets⟩ := (mem_clearedKeys host keys complete key).mp cleared
    exact ⟨member, resets, complete key member resets⟩
  · rw [clearedKeys, if_neg complete] at cleared
    obtain ⟨member, tokenformer, present⟩ := reachedTokenformers_subset host keys key cleared
    exact ⟨member, Or.inl tokenformer, present⟩

theorem mem_reachedTokenformers (keys : List Key) (complete : Completes host keys) (key : Key) :
    key ∈ reachedTokenformers host keys ↔ key ∈ keys ∧ IsTokenformerP key := by
  refine ⟨fun reached => (reachedTokenformers_subset host keys key reached).imp_right And.left, ?_⟩
  induction keys with
  | nil => exact fun both => absurd both.1 List.not_mem_nil
  | cons head rest ih =>
      intro given
      rcases given with ⟨member, tokenformer⟩
      obtain ⟨through, later⟩ := (completes_cons host head rest).mp complete
      rw [reachedTokenformers, if_pos through]
      rcases List.mem_cons.mp member with rfl | member
      · rw [if_pos tokenformer]
        exact List.mem_cons_self
      · have reached := ih later ⟨member, tokenformer⟩
        split
        · exact List.mem_cons_of_mem _ reached
        · exact reached

def withHeads (keys : List Key) (given : Key → Option V) : Key → Option V := fun key =>
  if key ∈ keys ∧ IsLmHead key ∧ ¬ IsTokenformerP key then some (host.initial key) else given key

@[simp] theorem withHeads_nil (given : Key → Option V) : withHeads host [] given = given := by
  funext entry
  exact if_neg fun both => List.not_mem_nil both.1

theorem withHeads_cons_head (key : Key) (rest : List Key) (given : Key → Option V)
    (head : IsLmHead key) (other : ¬ IsTokenformerP key) :
    withHeads host rest
        (fun entry => if entry = key then some (host.initial key) else given entry) =
      withHeads host (key :: rest) given := by
  funext entry
  unfold withHeads
  by_cases same : entry = key
  · subst same
    simp [head, other]
  · simp [same]

theorem withHeads_cons_other (key : Key) (rest : List Key) (given : Key → Option V)
    (other : ¬ (IsLmHead key ∧ ¬ IsTokenformerP key)) :
    withHeads host rest given = withHeads host (key :: rest) given := by
  funext entry
  unfold withHeads
  by_cases same : entry = key
  · subst same
    rw [if_neg (fun both => other both.2), if_neg (fun both => other both.2)]
  · simp [same]

theorem deactivateKeys_eq (keys : List Key) (weights : Key → V) (given : Key → Option V) :
    deactivateKeys host keys weights given =
      (resetKeys host (reachedTokenformers host keys) weights,
        if Completes host keys then some (withHeads host keys given) else none) := by
  induction keys generalizing weights given with
  | nil =>
      have complete : Completes host [] := List.forall_mem_nil _
      rw [deactivateKeys, reachedTokenformers, resetKeys_nil, if_pos complete]
      rw [withHeads_nil]
  | cons key rest ih =>
      by_cases through : IsReset key → key ∈ host.keys
      · have onward : Completes host (key :: rest) ↔ Completes host rest := by
          rw [completes_cons]
          exact and_iff_right through
        rw [deactivateKeys, reachedTokenformers, if_pos through]
        simp only [onward]
        by_cases tokenformer : IsTokenformerP key
        · have present := through (Or.inl tokenformer)
          have zero : host.initial key = 0 := host.zeroed key present tokenformer
          rw [if_pos tokenformer, if_pos present, if_pos tokenformer, ih,
            withHeads_cons_other host key rest given (fun both => both.2 tokenformer)]
          congr 1
          funext other
          unfold resetKeys
          by_cases same : other = key
          · subst same
            simp [zero]
          · simp [same]
        · rw [if_neg tokenformer, if_neg tokenformer]
          by_cases head : IsLmHead key
          · have kept : origLmHead host key = some (host.initial key) :=
              if_pos ⟨through (Or.inr head), head⟩
            simp only [if_pos head, kept]
            rw [ih, withHeads_cons_head host key rest given head tokenformer]
          · rw [if_neg head, ih,
              withHeads_cons_other host key rest given (fun both => head both.1)]
      · obtain ⟨resets, missing⟩ := Classical.not_imp.mp through
        have stuck : ¬ Completes host (key :: rest) :=
          fun complete => through ((completes_cons host key rest).mp complete).1
        rw [reachedTokenformers, if_neg through, resetKeys_nil, if_neg stuck, deactivateKeys]
        by_cases tokenformer : IsTokenformerP key
        · rw [if_pos tokenformer, if_neg missing]
        · have head := resets.resolve_left tokenformer
          have lost : origLmHead host key = none := if_neg fun both => missing both.1
          simp only [if_neg tokenformer, if_pos head, lost]

variable (adapters : Nat → Dict Key V) (capacity : Nat) (state : Manager V)

/-- Deactivation resets the adapter's keys and changes nothing else; the active
marker stays. -/
theorem deactivateAdapter_eq (id : Nat) (registered : id ∈ state.registeredAdapters) :
    deactivateAdapter host adapters id state =
      (state.reset host (clearedKeys host (adapters id).keys),
        if Completes host (adapters id).keys then some false else none) := by
  rw [deactivateAdapter, if_pos registered, deactivateKeys_eq]
  by_cases complete : Completes host (adapters id).keys
  · simp only [if_pos complete]
    congr 2
    funext key
    unfold loadStateDict withHeads resetKeys
    simp only [mem_clearedKeys host _ complete, mem_reachedTokenformers host _ complete]
    by_cases member : key ∈ (adapters id).keys
    · by_cases tokenformer : IsTokenformerP key
      · simp [member, tokenformer, IsReset]
      · by_cases head : IsLmHead key
        · have present := complete key member (Or.inr head)
          simp [member, tokenformer, head, IsReset, present]
        · simp [tokenformer, head, IsReset]
    · simp [member]
  · simp only [if_neg complete]
    rw [clearedKeys, if_neg complete]
    rfl

def clearedEach : List Nat → List Key
  | [] => []
  | id :: rest =>
      clearedKeys host (adapters id).keys ++
        if Completes host (adapters id).keys then clearedEach rest else []

theorem clearedEach_subset (ids : List Nat) :
    ∀ key ∈ clearedEach host adapters ids, key ∈ host.keys := by
  induction ids with
  | nil => intro key cleared; cases cleared
  | cons id rest ih =>
      intro key cleared
      rcases List.mem_append.mp cleared with here | later
      · exact (clearedKeys_subset host _ key here).2.2
      · split at later
        · exact ih key later
        · cases later

theorem deactivateEach_eq (ids : List Nat)
    (registered : ∀ id ∈ ids, id ∈ state.registeredAdapters) :
    deactivateEach host adapters ids state =
      (state.reset host (clearedEach host adapters ids),
        if ∀ id ∈ ids, Completes host (adapters id).keys then some false else none) := by
  induction ids generalizing state with
  | nil => simp [deactivateEach, clearedEach]
  | cons id rest ih =>
      rw [deactivateEach,
        deactivateAdapter_eq host adapters state id (registered id List.mem_cons_self), clearedEach]
      by_cases complete : Completes host (adapters id).keys
      · rw [if_pos complete, if_pos complete, Outcome.andThen,
          ih (state.reset host _)
            (fun other member => registered other (List.mem_cons_of_mem _ member)),
          Manager.reset_append]
        simp only [List.forall_mem_cons, complete, true_and]
      · rw [if_neg complete, if_neg complete, List.append_nil, Outcome.andThen,
          if_neg (fun all => complete (all id List.mem_cons_self))]

def removedKeys (id : Nat) : List Key :=
  if id ∈ state.registeredAdapters ∧ state.activeAdapter = some id then
    clearedKeys host (adapters id).keys
  else []

theorem removedKeys_subset (id : Nat) :
    ∀ key ∈ removedKeys host adapters state id, key ∈ host.keys := by
  intro key removed
  unfold removedKeys at removed
  split at removed
  · exact (clearedKeys_subset host _ key removed).2.2
  · cases removed

def RemovalStuck (id : Nat) : Prop :=
  id ∈ state.registeredAdapters ∧ state.activeAdapter = some id ∧
    ¬ Completes host (adapters id).keys

instance (id : Nat) : Decidable (RemovalStuck host adapters state id) :=
  inferInstanceAs (Decidable (_ ∧ _ ∧ _))

theorem removeAdapter_eq (id : Nat) :
    removeAdapter host adapters id state =
      if RemovalStuck host adapters state id then
        (state.reset host (removedKeys host adapters state id), none)
      else
        ({ state with
            weights := resetKeys host (removedKeys host adapters state id) state.weights
            registeredAdapters := (state.registeredAdapters.erase id).erase id },
          some (decide (id ∈ state.registeredAdapters.erase id))) := by
  unfold removeAdapter removeRegistered removedKeys RemovalStuck
  by_cases registered : id ∈ state.registeredAdapters
  · by_cases active : state.activeAdapter = some id
    · by_cases complete : Completes host (adapters id).keys
      · simp [registered, active, complete, deactivateAdapter_eq, Outcome.andThen, Manager.reset]
      · simp [registered, active, complete, deactivateAdapter_eq, Outcome.andThen, Manager.reset]
    · simp [registered, active, Outcome.andThen]
  · simp [registered, Outcome.andThen, List.erase_of_not_mem]

end ScalarLM.Adapter
