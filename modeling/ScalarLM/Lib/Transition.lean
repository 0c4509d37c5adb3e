import Mathlib.Data.List.Basic
import Mathlib.Tactic.Common

/-! Runs of a system that takes one step for each event, and properties along them. -/

namespace ScalarLM.Transition

variable {σ ε : Type} (step : σ → ε → σ)

def run (start : σ) (events : List ε) : σ := events.foldl step start

/-- A property of every state of a run, the first and the last included. -/
def Always (property : σ → Prop) : σ → List ε → Prop
  | state, [] => property state
  | state, event :: rest => property state ∧ Always property (step state event) rest

/-- A property of every step of a run: of the state before it and its event. -/
def AllSteps (property : σ → ε → Prop) : σ → List ε → Prop
  | _, [] => True
  | state, event :: rest => property state event ∧ AllSteps property (step state event) rest

instance decidableAllSteps (property : σ → ε → Prop)
    [∀ state event, Decidable (property state event)] :
    ∀ (start : σ) (events : List ε), Decidable (AllSteps step property start events)
  | _, [] => isTrue trivial
  | start, event :: rest =>
      have := decidableAllSteps property (step start event) rest
      inferInstanceAs (Decidable (_ ∧ _))

theorem allSteps_of_forall (property : σ → ε → Prop) (all : ∀ state event, property state event)
    (start : σ) (events : List ε) : AllSteps step property start events := by
  induction events generalizing start with
  | nil => trivial
  | cons event rest ih => exact ⟨all start event, ih _⟩

theorem always_iff_prefixes (property : σ → Prop) (start : σ) (events : List ε) :
    Always step property start events ↔
      ∀ front back, events = front ++ back → property (run step start front) := by
  induction events generalizing start with
  | nil =>
      constructor
      · intro holds front back split
        obtain ⟨rfl, _⟩ := List.append_eq_nil_iff.mp split.symm
        exact holds
      · intro holds
        exact holds [] [] rfl
  | cons event rest ih =>
      rw [Always, ih]
      constructor
      · intro given front back split
        rcases given with ⟨first, later⟩
        cases front with
        | nil => exact first
        | cons head front =>
            rw [List.cons_append, List.cons.injEq] at split
            rw [← split.1]
            exact later front back split.2
      · intro holds
        refine ⟨holds [] (event :: rest) rfl, ?_⟩
        intro front back split
        exact holds (event :: front) back (by rw [split]; rfl)

theorem run_append (start : σ) (front back : List ε) :
    run step start (front ++ back) = run step (run step start front) back :=
  List.foldl_append

theorem run_snoc (start : σ) (front : List ε) (event : ε) :
    run step start (front ++ [event]) = step (run step start front) event :=
  run_append step start front [event]

theorem run_rounds (holds : Nat → σ → Prop) (round : List ε) (rounds : Nat)
    (next : ∀ number state, number < rounds → holds number state →
      holds (number + 1) (run step state round))
    (start : σ) (first : holds 0 start) :
    holds rounds (run step start (List.replicate rounds round).flatten) := by
  induction rounds with
  | zero => exact first
  | succ rounds ih =>
      rw [List.replicate_succ', List.flatten_append, run_append, List.flatten_singleton]
      exact next rounds _ (Nat.lt_succ_self rounds)
        (ih fun number state below => next number state (Nat.lt_succ_of_lt below))

theorem allSteps_iff_prefixes (property : σ → ε → Prop) (start : σ) (events : List ε) :
    AllSteps step property start events ↔
      ∀ front event back, events = front ++ event :: back →
        property (run step start front) event := by
  induction events generalizing start with
  | nil => simp [AllSteps]
  | cons head rest ih =>
      rw [AllSteps, ih]
      constructor
      · intro given front event back split
        rcases given with ⟨first, later⟩
        cases front with
        | nil =>
            rw [List.nil_append, List.cons.injEq] at split
            rw [← split.1]
            exact first
        | cons other front =>
            rw [List.cons_append, List.cons.injEq] at split
            rw [← split.1]
            exact later front event back split.2
      · intro holds
        refine ⟨holds [] head rest rfl, ?_⟩
        intro front event back split
        exact holds (head :: front) event back (by rw [split]; rfl)

theorem allSteps_append (property : σ → ε → Prop) (start : σ) (front back : List ε) :
    AllSteps step property start (front ++ back) ↔
      AllSteps step property start front ∧ AllSteps step property (run step start front) back := by
  induction front generalizing start with
  | nil => simp [AllSteps, run]
  | cons event front ih => rw [List.cons_append, AllSteps, AllSteps, ih, and_assoc]; rfl

theorem allSteps_last (property : σ → ε → Prop) (start : σ) (front : List ε) (event : ε)
    (all : AllSteps step property start (front ++ [event])) :
    property (run step start front) event :=
  (allSteps_iff_prefixes step property start _).mp all front event [] rfl

theorem always_iff_allSteps (property : σ → Prop) (start : σ) (events : List ε) :
    Always step property start events ↔
      property start ∧ AllSteps step (fun state event => property (step state event)) start
        events := by
  induction events generalizing start with
  | nil => simp [Always, AllSteps]
  | cons event rest ih => rw [Always, ih, AllSteps]

theorem run_of_invariant (invariant : σ → Prop) (admissible : σ → ε → Prop)
    (kept : ∀ state event, invariant state → admissible state event →
      invariant (step state event))
    (start : σ) (events : List ε) (first : invariant start)
    (inside : AllSteps step admissible start events) : invariant (run step start events) := by
  induction events generalizing start with
  | nil => exact first
  | cons event rest ih => exact ih _ (kept start event first inside.1) inside.2

/-- What an invariant implies holds in all states of a run of admissible steps. -/
theorem always_of_invariant (invariant property : σ → Prop) (admissible : σ → ε → Prop)
    (kept : ∀ state event, invariant state → admissible state event →
      invariant (step state event))
    (implied : ∀ state, invariant state → property state)
    (start : σ) (events : List ε) (first : invariant start)
    (inside : AllSteps step admissible start events) : Always step property start events := by
  induction events generalizing start with
  | nil => exact implied start first
  | cons event rest ih =>
      exact ⟨implied start first, ih _ (kept start event first inside.1) inside.2⟩

/-- What an invariant implies of every step holds of all steps of a run. -/
theorem allSteps_of_invariant (invariant : σ → Prop) (property : σ → ε → Prop)
    (kept : ∀ state event, invariant state → invariant (step state event))
    (implied : ∀ state event, invariant state → property state event)
    (start : σ) (events : List ε) (first : invariant start) :
    AllSteps step property start events := by
  induction events generalizing start with
  | nil => trivial
  | cons event rest ih => exact ⟨implied start event first, ih _ (kept start event first)⟩

/-- When, under an invariant that good steps keep, a step is good exactly if it is
allowed, a run has only good steps exactly if all of them are allowed. -/
theorem allSteps_iff (invariant : σ → Prop) (admissible good allowed : σ → ε → Prop)
    (exactly : ∀ state event, invariant state → admissible state event →
      (good state event ↔ allowed state event))
    (kept : ∀ state event, invariant state → admissible state event → good state event →
      invariant (step state event))
    (start : σ) (events : List ε) (first : invariant start)
    (inside : AllSteps step admissible start events) :
    AllSteps step good start events ↔ AllSteps step allowed start events := by
  induction events generalizing start with
  | nil => exact Iff.rfl
  | cons event rest ih =>
      rw [AllSteps, AllSteps, exactly start event first inside.1]
      refine and_congr_right fun now => ?_
      exact ih _ (kept start event first inside.1 ((exactly start event first inside.1).mpr now))
        inside.2

/-- When every enabled step makes progress, a run of enabled steps is no longer than the
progress that it makes. -/
theorem length_le_progress (invariant : σ → Prop) (enabled : σ → ε → Prop) (progress : σ → Nat)
    (kept : ∀ state event, invariant state → enabled state event → invariant (step state event))
    (grows : ∀ state event, invariant state → enabled state event →
      progress state < progress (step state event))
    (start : σ) (events : List ε) (first : invariant start)
    (inside : AllSteps step enabled start events) :
    progress start + events.length ≤ progress (run step start events) := by
  induction events generalizing start with
  | nil => exact Nat.le_refl _
  | cons event rest ih =>
      have further := grows start event first inside.1
      have later := ih _ (kept start event first inside.1) inside.2
      rw [List.length_cons]
      exact Nat.le_trans (by omega) later

/-- When the runs of enabled steps are bounded, one of them cannot go on. -/
theorem exists_stuck (enabled : σ → ε → Prop) (start : σ) (bound : Nat)
    (bounded : ∀ events, AllSteps step enabled start events → events.length ≤ bound) :
    ∃ events, AllSteps step enabled start events ∧
      ∀ event, ¬ enabled (run step start events) event := by
  by_contra none
  have longer (length : Nat) :
      ∃ events, AllSteps step enabled start events ∧ events.length = length := by
    induction length with
    | zero => exact ⟨[], trivial, rfl⟩
    | succ length ih =>
        obtain ⟨events, inside, same⟩ := ih
        obtain ⟨event, further⟩ : ∃ event, enabled (run step start events) event := by
          by_contra stuck
          exact none ⟨events, inside, not_exists.mp stuck⟩
        refine ⟨events ++ [event], ?_, by rw [List.length_append, same]; rfl⟩
        exact (allSteps_append step _ _ _ _).mpr ⟨inside, further, trivial⟩
  obtain ⟨events, inside, same⟩ := longer (bound + 1)
  have few := bounded events inside
  omega

end ScalarLM.Transition
