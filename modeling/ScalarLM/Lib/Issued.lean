import ScalarLM.Lib.Lockstep

/-! Programs of one process: the operations that it issues and what it returns, if it
does not raise. -/

namespace ScalarLM

structure Issued (κ σ : Type) where
  operations : List κ
  result : Option σ

namespace Issued

variable {κ σ τ υ : Type}

def issue (operations : List κ) (state : σ) : Issued κ σ := ⟨operations, some state⟩

def raised : Issued κ σ := ⟨[], none⟩

def andThen (first : Issued κ σ) (next : σ → Issued κ τ) : Issued κ τ :=
  match first.result with
  | none => ⟨first.operations, none⟩
  | some state => ⟨first.operations ++ (next state).operations, (next state).result⟩

def relabel {μ : Type} (label : κ → μ) (program : Issued κ σ) : Issued μ σ :=
  ⟨program.operations.map label, program.result⟩

def forEach {ι : Type} (body : ι → Issued κ Unit) : List ι → Issued κ Unit
  | [] => issue [] ()
  | entry :: rest => (body entry).andThen fun _ => forEach body rest

theorem andThen_some {first : Issued κ σ} {state : σ} (returns : first.result = some state)
    (next : σ → Issued κ τ) :
    first.andThen next = ⟨first.operations ++ (next state).operations, (next state).result⟩ := by
  rw [andThen, returns]

theorem andThen_none {first : Issued κ σ} (raises : first.result = none)
    (next : σ → Issued κ τ) : first.andThen next = ⟨first.operations, none⟩ := by
  rw [andThen, raises]

theorem andThen_assoc (first : Issued κ σ) (next : σ → Issued κ τ) (last : τ → Issued κ υ) :
    (first.andThen next).andThen last =
      first.andThen fun state => (next state).andThen last := by
  cases returned : first.result with
  | none => rw [andThen_none returned, andThen_none returned, andThen_none rfl]
  | some state =>
      rw [andThen_some returned, andThen_some returned]
      cases later : (next state).result with
      | none => rw [andThen_none rfl, andThen_none later]
      | some after =>
          rw [andThen_some rfl, andThen_some later, List.append_assoc]

theorem andThen_issue (program : Issued κ σ) : program.andThen (issue []) = program := by
  cases returned : program.result with
  | none =>
      rw [andThen_none returned, ← returned]
  | some state =>
      rw [andThen_some returned, issue, List.append_nil, ← returned]

theorem forEach_issue {ι : Type} (body : ι → Issued κ Unit) (shown : ι → List κ)
    (items : List ι) (each : ∀ item ∈ items, body item = issue (shown item) ()) :
    forEach body items = issue (items.flatMap shown) () := by
  induction items with
  | nil => rfl
  | cons item rest ih =>
      rw [List.forall_mem_cons] at each
      rw [forEach, each.1, ih each.2]
      rfl

section Ranks

open Lockstep

variable {worldSize : Nat}

theorem agree_andThen (first : Nat → Issued κ σ) (next : Nat → σ → Issued κ τ)
    (common : List κ) (states : Nat → σ)
    (same : ∀ rank < worldSize, first rank = issue common (states rank)) :
    Agree worldSize (fun rank => ((first rank).andThen (next rank)).operations) ↔
      Agree worldSize (fun rank => (next rank (states rank)).operations) := by
  have trace (rank : Nat) (below : rank < worldSize) :
      ((first rank).andThen (next rank)).operations =
        common ++ (next rank (states rank)).operations := by
    rw [same rank below]
    rfl
  constructor
  · intro agree rank below other within
    have equal := agree rank below other within
    dsimp only at equal
    rw [trace rank below, trace other within] at equal
    exact List.append_cancel_left equal
  · intro agree rank below other within
    dsimp only
    rw [trace rank below, trace other within]
    exact congrArg (common ++ ·) (agree rank below other within)

/-- Processes that all raise after the same operations agree. -/
theorem agree_raised (first : Nat → Issued κ σ) (next : Nat → σ → Issued κ τ) (common : List κ)
    (same : ∀ rank < worldSize, first rank = ⟨common, none⟩) :
    Agree worldSize (fun rank => ((first rank).andThen (next rank)).operations) := by
  intro rank below other within
  dsimp only
  rw [same rank below, same other within]
  rfl

end Ranks

end Issued

end ScalarLM
