import Mathlib.Data.List.Basic
import Mathlib.Tactic.Common

/-! An iterator that starts over with the next epoch when it is exhausted. -/

namespace ScalarLM.Restart

variable {β : Type}

structure State (β : Type) where
  epoch : Nat
  iterator : List β

variable (load : Nat → List β)

/-- The next item. An exhausted iterator is replaced by that of the next epoch, and only
once: `none` when that one has no item either. -/
def next (state : State β) : Option β × State β :=
  match state.iterator with
  | item :: rest => (some item, ⟨state.epoch, rest⟩)
  | [] =>
      match load (state.epoch + 1) with
      | item :: rest => (some item, ⟨state.epoch + 1, rest⟩)
      | [] => (none, ⟨state.epoch + 1, []⟩)

variable (accept : β → Prop) [DecidablePred accept]

def steps : Nat → State β → Option (State β)
  | 0, state => some state
  | count + 1, state =>
      match next load state with
      | (some item, state') => if accept item then steps count state' else none
      | (none, _) => none

def Unending (state : State β) : Prop :=
  ∀ count, steps load accept count state ≠ none

variable {load accept}

theorem unending_cons_iff (epoch : Nat) (item : β) (rest : List β) :
    Unending load accept ⟨epoch, item :: rest⟩ ↔
      accept item ∧ Unending load accept ⟨epoch, rest⟩ := by
  constructor
  · intro unending
    have accepted : accept item := by
      by_contra refused
      exact unending 1 (if_neg refused)
    refine ⟨accepted, ?_⟩
    intro count ended
    exact unending (count + 1) ((if_pos accepted).trans ended)
  · intro ⟨accepted, unending⟩ count
    cases count with
    | zero => exact Option.some_ne_none _
    | succ count =>
        intro ended
        exact unending count ((if_pos accepted).symm.trans ended)

theorem unending_nil_iff (epoch : Nat) :
    Unending load accept ⟨epoch, []⟩ ↔
      load (epoch + 1) ≠ [] ∧ Unending load accept ⟨epoch + 1, load (epoch + 1)⟩ := by
  cases loaded : load (epoch + 1) with
  | nil =>
      refine iff_of_false ?_ fun given => given.1 rfl
      intro unending
      apply unending 1
      simp [steps, next, loaded]
  | cons item rest =>
      have same : ∀ count, steps load accept (count + 1) ⟨epoch, []⟩ =
          steps load accept (count + 1) ⟨epoch + 1, item :: rest⟩ := by
        intro count
        simp [steps, next, loaded]
      constructor
      · intro unending
        refine ⟨List.cons_ne_nil _ _, ?_⟩
        intro count
        cases count with
        | zero => exact Option.some_ne_none _
        | succ count => exact same count ▸ unending (count + 1)
      · intro ⟨_, unending⟩ count
        cases count with
        | zero => exact Option.some_ne_none _
        | succ count => exact same count ▸ unending (count + 1)

theorem unending_append_iff (epoch : Nat) (items : List β) :
    Unending load accept ⟨epoch, items⟩ ↔
      (∀ item ∈ items, accept item) ∧ Unending load accept ⟨epoch, []⟩ := by
  induction items with
  | nil => simp
  | cons item rest ih => rw [unending_cons_iff, ih, List.forall_mem_cons, and_assoc]

/-- Every step finds an accepted item exactly when no later epoch is empty and every
item of every epoch is accepted. -/
theorem unending_iff :
    Unending load accept ⟨0, load 0⟩ ↔
      (∀ epoch, load (epoch + 1) ≠ []) ∧ ∀ epoch, ∀ item ∈ load epoch, accept item := by
  constructor
  · intro unending
    have reached : ∀ epoch, Unending load accept ⟨epoch, load epoch⟩ := by
      intro epoch
      induction epoch with
      | zero => exact unending
      | succ epoch ih =>
          exact ((unending_nil_iff epoch).mp ((unending_append_iff epoch _).mp ih).2).2
    constructor
    · intro epoch
      exact ((unending_nil_iff epoch).mp ((unending_append_iff epoch _).mp (reached epoch)).2).1
    · intro epoch
      exact ((unending_append_iff epoch _).mp (reached epoch)).1
  · intro ⟨some_items, accepted⟩ count
    -- However far the steps have come, what is left of the epoch is accepted.
    have going : ∀ count epoch items, (∀ item ∈ items, accept item) →
        steps load accept count ⟨epoch, items⟩ ≠ none := by
      intro count
      induction count with
      | zero => exact fun _ _ _ => Option.some_ne_none _
      | succ count ih =>
          intro epoch items fine
          cases items with
          | cons item rest =>
              obtain ⟨here, later⟩ := List.forall_mem_cons.mp fine
              intro ended
              exact ih epoch rest later ((if_pos here).symm.trans ended)
          | nil =>
              obtain ⟨item, rest, loaded⟩ := List.exists_cons_of_ne_nil (some_items epoch)
              obtain ⟨here, later⟩ := List.forall_mem_cons.mp (loaded ▸ accepted (epoch + 1))
              have onward : steps load accept (count + 1) ⟨epoch, []⟩ =
                  steps load accept count ⟨epoch + 1, rest⟩ := by
                simp [steps, next, loaded, here]
              rw [onward]
              exact ih (epoch + 1) rest later
    exact going count 0 (load 0) (accepted 0)

end ScalarLM.Restart
