import Mathlib.Data.List.Basic
import Mathlib.Tactic.Common

/-! Processes that meet in collective operations, each with its own list of them. -/

namespace ScalarLM.Lockstep

variable {κ : Type} (worldSize : Nat)

/-- All processes have reached the same operation, and it completes. -/
def Completes (before after : Nat → List κ) : Prop :=
  ∃ operation, ∀ rank < worldSize, before rank = operation :: after rank

inductive Reachable (traces : Nat → List κ) : (Nat → List κ) → Prop where
  | start : Reachable traces traces
  | next {before after : Nat → List κ} (reached : Reachable traces before)
      (completes : Completes worldSize before after) : Reachable traces after

/-- Some process is in an operation that never completes. -/
def Waits (left : Nat → List κ) : Prop :=
  (∃ rank < worldSize, left rank ≠ []) ∧ ∀ after, ¬ Completes worldSize left after

def NeverWaits (traces : Nat → List κ) : Prop :=
  ∀ left, Reachable worldSize traces left → ¬ Waits worldSize left

/-- All processes have the same list. -/
def Agree (traces : Nat → List κ) : Prop :=
  ∀ rank < worldSize, ∀ other < worldSize, traces rank = traces other

instance [DecidableEq κ] (traces : Nat → List κ) : Decidable (Agree worldSize traces) :=
  inferInstanceAs (Decidable (∀ rank < worldSize, ∀ other < worldSize, _))

variable {worldSize}

theorem Agree.completes {before after : Nat → List κ} (agree : Agree worldSize before)
    (completes : Completes worldSize before after) : Agree worldSize after := by
  obtain ⟨operation, heads⟩ := completes
  intro rank below other within
  have same := agree rank below other within
  rw [heads rank below, heads other within] at same
  exact List.tail_eq_of_cons_eq same

theorem Agree.reachable {traces left : Nat → List κ} (agree : Agree worldSize traces)
    (reached : Reachable worldSize traces left) : Agree worldSize left := by
  induction reached with
  | start => exact agree
  | next _ completes ih => exact ih.completes completes

theorem Agree.not_waits {left : Nat → List κ} (agree : Agree worldSize left) :
    ¬ Waits worldSize left := by
  intro waits
  rcases waits with ⟨⟨rank, below, more⟩, stuck⟩
  cases mine : left rank with
  | nil => exact more mine
  | cons operation rest =>
      refine stuck (fun _ => rest) ⟨operation, ?_⟩
      intro other within
      rw [agree other within rank below, mine]

theorem Reachable.trans {traces middle left : Nat → List κ}
    (front : Reachable worldSize traces middle) (back : Reachable worldSize middle left) :
    Reachable worldSize traces left := by
  induction back with
  | start => exact front
  | next _ completes ih => exact ih.next completes

/-- Processes that never wait for an operation that another one does not reach are those
with the same list. -/
theorem neverWaits_iff (traces : Nat → List κ) :
    NeverWaits worldSize traces ↔ Agree worldSize traces := by
  constructor
  · intro never rank below
    generalize mine : traces rank = trace
    -- The list of one process gets shorter with each completed operation.
    induction trace generalizing traces with
    | nil =>
        intro other within
        by_contra apart
        refine never traces .start ⟨⟨other, within, fun empty => apart empty.symm⟩, ?_⟩
        intro after completes
        obtain ⟨operation, heads⟩ := completes
        rw [heads rank below] at mine
        cases mine
    | cons operation rest ih =>
        have moves : ∃ after, Completes worldSize traces after := by
          by_contra stuck
          refine never traces .start ⟨⟨rank, below, by simp [mine]⟩, ?_⟩
          exact fun after completes => stuck ⟨after, completes⟩
        obtain ⟨after, completes⟩ := moves
        have later : NeverWaits worldSize after := fun left reached =>
          never left ((Reachable.start.next completes).trans reached)
        obtain ⟨common, heads⟩ := completes
        have head := heads rank below
        rw [mine, List.cons.injEq] at head
        intro other within
        rw [heads other within, head.1, ih after later head.2.symm other within]
  · intro agree left reached
    exact (agree.reachable reached).not_waits

end ScalarLM.Lockstep
