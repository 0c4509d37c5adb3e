import Mathlib.Data.List.Basic
import Mathlib.Tactic.Common

/-! Programs that ask their surroundings, and the computations that answer them: over a state,
with a list of the operations they issue, and with exceptions. -/

namespace ScalarLM

structure Ran (σ κ ε ρ : Type) where
  issued : List κ
  state : σ
  result : Except ε ρ

/-- A computation over a state. An exception leaves the state as it is then. -/
abbrev Computation (σ κ ε ρ : Type) := σ → Ran σ κ ε ρ

namespace Computation

variable {σ μ κ ε ρ υ ι : Type}

def returns (value : ρ) : Computation σ κ ε ρ := fun state => ⟨[], state, .ok value⟩

def throws (cause : ε) : Computation σ κ ε ρ := fun state => ⟨[], state, .error cause⟩

def issues (operation : κ) : Computation σ κ ε Unit := fun state => ⟨[operation], state, .ok ()⟩

def modifies (change : σ → σ) : Computation σ κ ε Unit :=
  fun state => ⟨[], change state, .ok ()⟩

def andThen (first : Computation σ κ ε ρ) (next : ρ → Computation σ κ ε υ) :
    Computation σ κ ε υ := fun state =>
  match (first state).result with
  | .error cause => ⟨(first state).issued, (first state).state, .error cause⟩
  | .ok value =>
      let later := next value (first state).state
      ⟨(first state).issued ++ later.issued, later.state, later.result⟩

def reads (look : σ → ρ) : Computation σ κ ε ρ := fun state => ⟨[], state, .ok (look state)⟩

/-- Goes on with an exception; what was done before it stays. -/
def catches (first : Computation σ κ ε ρ) (handler : ε → Computation σ κ ε ρ) :
    Computation σ κ ε ρ := fun state =>
  match (first state).result with
  | .ok value => ⟨(first state).issued, (first state).state, .ok value⟩
  | .error cause =>
      let later := handler cause (first state).state
      ⟨(first state).issued ++ later.issued, later.state, later.result⟩

def forEach (body : ι → Computation σ κ ε Unit) : List ι → Computation σ κ ε Unit
  | [] => returns ()
  | item :: rest => (body item).andThen fun _ => forEach body rest

theorem andThen_ok {first : Computation σ κ ε ρ} {state : σ} {value : ρ}
    (returned : (first state).result = .ok value) (next : ρ → Computation σ κ ε υ) :
    first.andThen next state =
      ⟨(first state).issued ++ (next value (first state).state).issued,
        (next value (first state).state).state, (next value (first state).state).result⟩ := by
  rw [andThen, returned]

theorem andThen_error {first : Computation σ κ ε ρ} {state : σ} {cause : ε}
    (thrown : (first state).result = .error cause) (next : ρ → Computation σ κ ε υ) :
    first.andThen next state = ⟨(first state).issued, (first state).state, .error cause⟩ := by
  rw [andThen, thrown]

theorem catches_ok {first : Computation σ κ ε ρ} {state : σ} {value : ρ}
    (returned : (first state).result = .ok value) (handler : ε → Computation σ κ ε ρ) :
    first.catches handler state = ⟨(first state).issued, (first state).state, .ok value⟩ := by
  rw [catches, returned]

theorem catches_error {first : Computation σ κ ε ρ} {state : σ} {cause : ε}
    (thrown : (first state).result = .error cause) (handler : ε → Computation σ κ ε ρ) :
    first.catches handler state =
      ⟨(first state).issued ++ (handler cause (first state).state).issued,
        (handler cause (first state).state).state, (handler cause (first state).state).result⟩ := by
  rw [catches, thrown]

theorem returns_andThen (value : ρ) (next : ρ → Computation σ κ ε υ) :
    (returns value : Computation σ κ ε ρ).andThen next = next value :=
  funext fun _ => andThen_ok rfl next

theorem andThen_returns (first : Computation σ κ ε Unit) :
    (first.andThen fun _ => returns ()) = first := by
  funext state
  rcases ended : first state with ⟨issued, last, result⟩
  cases result with
  | error cause => rw [andThen_error (congrArg Ran.result ended), ended]
  | ok value =>
      rw [andThen_ok (congrArg Ran.result ended), ended, returns, List.append_nil]

theorem state_andThen_returns (first : Computation σ κ ε Unit) (value : ρ) (state : σ) :
    ((first.andThen fun _ => returns value) state).state = (first state).state := by
  cases ended : (first state).result with
  | error cause => rw [andThen_error ended]
  | ok last => rw [andThen_ok ended, returns]

theorem andThen_assoc {χ : Type} (first : Computation σ κ ε ρ) (next : ρ → Computation σ κ ε υ)
    (last : υ → Computation σ κ ε χ) :
    (first.andThen next).andThen last = first.andThen fun value => (next value).andThen last := by
  funext state
  cases ended : (first state).result with
  | error cause =>
      have front := andThen_error ended next
      rw [andThen_error (congrArg Ran.result front), front, andThen_error ended]
  | ok value =>
      have front := andThen_ok ended next
      rw [andThen_ok ended]
      cases later : (next value (first state).state).result with
      | error cause =>
          rw [andThen_error ((congrArg Ran.result front).trans later), andThen_error later, front]
      | ok further =>
          rw [andThen_ok ((congrArg Ran.result front).trans later), andThen_ok later, front,
            List.append_assoc]

theorem forEach_append (body : ι → Computation σ κ ε Unit) (front back : List ι) :
    forEach body (front ++ back) = (forEach body front).andThen fun _ => forEach body back := by
  induction front with
  | nil => exact (returns_andThen () fun _ => forEach body back).symm
  | cons item rest ih =>
      rw [List.cons_append, forEach, forEach, andThen_assoc, ih]

theorem forEach_flatMap {χ : Type} (body : ι → Computation σ κ ε Unit) (shown : χ → List ι)
    (items : List χ) :
    forEach body (items.flatMap shown) = forEach (fun item => forEach body (shown item)) items := by
  induction items with
  | nil => rfl
  | cons item rest ih => rw [List.flatMap_cons, forEach_append, ih, forEach]

section Simulation

variable {before middle after related : σ → μ → Prop}

/-- From states that are related before both computations issue the same, end in the same way
and leave states that are related after. -/
def SimulatesTo (before after : σ → μ → Prop) (left : Computation σ κ ε ρ)
    (right : Computation μ κ ε ρ) : Prop :=
  ∀ state other, before state other →
    (left state).issued = (right other).issued ∧
      (left state).result = (right other).result ∧
      after (left state).state (right other).state

abbrev Simulates (related : σ → μ → Prop) (left : Computation σ κ ε ρ)
    (right : Computation μ κ ε ρ) : Prop :=
  SimulatesTo related related left right

theorem simulates_returns (value : ρ) :
    Simulates related (returns value : Computation σ κ ε ρ) (returns value) :=
  fun _ _ holds => ⟨rfl, rfl, holds⟩

theorem simulates_issues (operation : κ) :
    Simulates related (issues operation : Computation σ κ ε Unit) (issues operation) :=
  fun _ _ holds => ⟨rfl, rfl, holds⟩

theorem simulatesTo_andThen (weaker : ∀ state other, middle state other → after state other)
    {left : Computation σ κ ε ρ} {right : Computation μ κ ε ρ}
    {leftNext : ρ → Computation σ κ ε υ} {rightNext : ρ → Computation μ κ ε υ}
    (first : SimulatesTo before middle left right)
    (next : ∀ value, (∃ other, (right other).result = .ok value) →
      SimulatesTo middle after (leftNext value) (rightNext value)) :
    SimulatesTo before after (left.andThen leftNext) (right.andThen rightNext) := by
  intro state other holds
  obtain ⟨issued, result, between⟩ := first state other holds
  cases ended : (right other).result with
  | error cause =>
      rw [andThen_error (result.trans ended), andThen_error ended]
      exact ⟨issued, rfl, weaker _ _ between⟩
  | ok value =>
      rw [andThen_ok (result.trans ended), andThen_ok ended]
      obtain ⟨laterIssued, laterResult, last⟩ := next value ⟨other, ended⟩ _ _ between
      exact ⟨by rw [issued, laterIssued], laterResult, last⟩

theorem simulates_andThen {left : Computation σ κ ε ρ} {right : Computation μ κ ε ρ}
    {leftNext : ρ → Computation σ κ ε υ} {rightNext : ρ → Computation μ κ ε υ}
    (first : Simulates related left right)
    (next : ∀ value, Simulates related (leftNext value) (rightNext value)) :
    Simulates related (left.andThen leftNext) (right.andThen rightNext) :=
  simulatesTo_andThen (fun _ _ holds => holds) first fun value _ => next value

theorem simulates_forEach (left : ι → Computation σ κ ε Unit) (right : ι → Computation μ κ ε Unit)
    (items : List ι) (each : ∀ item ∈ items, Simulates related (left item) (right item)) :
    Simulates related (forEach left items) (forEach right items) := by
  induction items with
  | nil => exact simulates_returns ()
  | cons item rest ih =>
      rw [List.forall_mem_cons] at each
      exact simulates_andThen each.1 fun _ => ih each.2

theorem simulates_and {left : Computation σ κ ε ρ} {right : Computation μ κ ε ρ}
    {kept : μ → Prop} (keeps : ∀ other, kept other → kept (right other).state)
    (simulates : Simulates related left right) :
    Simulates (fun state other => related state other ∧ kept other) left right := by
  intro state other holds
  obtain ⟨issued, result, last⟩ := simulates state other holds.1
  exact ⟨issued, result, last, keeps other holds.2⟩

end Simulation

section Respecting

/-- A relation between a state, the operations issued from it on and the state after them, which
holds of nothing and of one stretch after another. -/
structure Chains (relation : σ → List κ → σ → Prop) : Prop where
  nothing : ∀ state, relation state [] state
  join : ∀ start middle last front back, relation start front middle →
    relation middle back last → relation start (front ++ back) last

variable {relation : σ → List κ → σ → Prop}

/-- However the computation ends, what it does is in the relation. -/
def Respects (relation : σ → List κ → σ → Prop) (computation : Computation σ κ ε ρ) : Prop :=
  ∀ state, relation state (computation state).issued (computation state).state

theorem Chains.returns (chains : Chains relation) (value : ρ) :
    Respects relation (returns value : Computation σ κ ε ρ) := chains.nothing

theorem Chains.throws (chains : Chains relation) (cause : ε) :
    Respects relation (throws cause : Computation σ κ ε ρ) := chains.nothing

theorem Chains.reads (chains : Chains relation) (look : σ → ρ) :
    Respects relation (reads look : Computation σ κ ε ρ) := chains.nothing

theorem Chains.andThen (chains : Chains relation) {first : Computation σ κ ε ρ}
    {next : ρ → Computation σ κ ε υ} (front : Respects relation first)
    (back : ∀ value, Respects relation (next value)) : Respects relation (first.andThen next) := by
  intro state
  cases outcome : (first state).result with
  | error cause =>
      rw [andThen_error outcome]
      exact front state
  | ok value =>
      rw [andThen_ok outcome]
      exact chains.join _ _ _ _ _ (front state) (back value _)

theorem Chains.catches (chains : Chains relation) {first : Computation σ κ ε ρ}
    {handler : ε → Computation σ κ ε ρ} (front : Respects relation first)
    (back : ∀ cause, Respects relation (handler cause)) :
    Respects relation (first.catches handler) := by
  intro state
  cases outcome : (first state).result with
  | error cause =>
      rw [catches_error outcome]
      exact chains.join _ _ _ _ _ (front state) (back cause _)
  | ok value =>
      rw [catches_ok outcome]
      exact front state

theorem Chains.forEach (chains : Chains relation) {body : ι → Computation σ κ ε Unit}
    {items : List ι} (each : ∀ item ∈ items, Respects relation (body item)) :
    Respects relation (forEach body items) := by
  induction items with
  | nil => exact chains.returns ()
  | cons item rest ih =>
      rw [List.forall_mem_cons] at each
      exact chains.andThen each.1 fun _ => ih each.2

/-- An invariant that is kept while all operations are good. -/
theorem chains_invariant (invariant : σ → Prop) (good : κ → Prop) :
    Chains fun start issued last => invariant start →
      (∀ operation ∈ issued, good operation) ∧ invariant last where
  nothing _ holds := ⟨fun _ member => absurd member List.not_mem_nil, holds⟩
  join start middle last front back first second holds := by
    obtain ⟨issued, between⟩ := first holds
    obtain ⟨more, after⟩ := second between
    exact ⟨fun operation member => (List.mem_append.mp member).elim (issued operation)
      (more operation), after⟩

theorem chains_change (good : κ → Prop) {change : σ → σ → Prop} (refl : ∀ state, change state state)
    (trans : ∀ start middle last, change start middle → change middle last → change start last) :
    Chains fun start issued last => (∀ operation ∈ issued, good operation) →
      change start last where
  nothing state _ := refl state
  join start middle last front back first second all := by
    refine trans start middle last (first fun operation member => ?_)
      (second fun operation member => ?_)
    · exact all operation (List.mem_append_left _ member)
    · exact all operation (List.mem_append_right _ member)

end Respecting

section Conditions

variable {good : κ → Prop} {state : σ}

/-- All that the computation issues from the state on is good. -/
def OnlyIssues (good : κ → Prop) (computation : Computation σ κ ε ρ) (state : σ) : Prop :=
  ∀ operation ∈ (computation state).issued, good operation

def AfterReturn (computation : Computation σ κ ε ρ) (property : ρ → σ → Prop) (state : σ) : Prop :=
  ∀ value, (computation state).result = .ok value → property value (computation state).state

def AfterThrow (computation : Computation σ κ ε ρ) (property : ε → σ → Prop) (state : σ) : Prop :=
  ∀ cause, (computation state).result = .error cause → property cause (computation state).state

/-- What holds of each item that a loop comes to, in the state that the loop has then. -/
def EachReached (body : ι → Computation σ κ ε Unit) (property : ι → σ → Prop) :
    List ι → σ → Prop
  | [], _ => True
  | item :: rest, state => property item state ∧
      AfterReturn (body item) (fun _ => EachReached body property rest) state

@[simp] theorem onlyIssues_returns (value : ρ) :
    OnlyIssues good (returns value : Computation σ κ ε ρ) state :=
  fun _ member => absurd member List.not_mem_nil

@[simp] theorem onlyIssues_throws (cause : ε) :
    OnlyIssues good (throws cause : Computation σ κ ε ρ) state :=
  fun _ member => absurd member List.not_mem_nil

@[simp] theorem onlyIssues_reads (look : σ → ρ) :
    OnlyIssues good (reads look : Computation σ κ ε ρ) state :=
  fun _ member => absurd member List.not_mem_nil

@[simp] theorem onlyIssues_ite {condition : Prop} [Decidable condition]
    {first second : Computation σ κ ε ρ} :
    OnlyIssues good (if condition then first else second) state ↔
      if condition then OnlyIssues good first state else OnlyIssues good second state := by
  split <;> rfl

@[simp] theorem onlyIssues_andThen {first : Computation σ κ ε ρ}
    {next : ρ → Computation σ κ ε υ} :
    OnlyIssues good (first.andThen next) state ↔ OnlyIssues good first state ∧
      ∀ value, (first state).result = .ok value →
        OnlyIssues good (next value) (first state).state := by
  cases ended : (first state).result with
  | error cause => simp [OnlyIssues, andThen_error ended]
  | ok value => simp [OnlyIssues, andThen_ok ended, or_imp, forall_and]

@[simp] theorem onlyIssues_catches {first : Computation σ κ ε ρ}
    {handler : ε → Computation σ κ ε ρ} :
    OnlyIssues good (first.catches handler) state ↔ OnlyIssues good first state ∧
      ∀ cause, (first state).result = .error cause →
        OnlyIssues good (handler cause) (first state).state := by
  cases ended : (first state).result with
  | error cause => simp [OnlyIssues, Computation.catches, ended, or_imp, forall_and]
  | ok value => simp [OnlyIssues, Computation.catches, ended]

theorem onlyIssues_forEach {body : ι → Computation σ κ ε Unit} {items : List ι} :
    OnlyIssues good (forEach body items) state ↔
      EachReached body (fun item => OnlyIssues good (body item)) items state := by
  induction items generalizing state with
  | nil => exact iff_of_true (onlyIssues_returns ()) trivial
  | cons item rest ih => simp only [forEach, onlyIssues_andThen, EachReached, AfterReturn, ih]

@[simp] theorem result_reads (look : σ → ρ) :
    (reads look state : Ran σ κ ε ρ).result = .ok (look state) := rfl

@[simp] theorem state_reads (look : σ → ρ) : (reads look state : Ran σ κ ε ρ).state = state := rfl

theorem AfterReturn.congr {computation : Computation σ κ ε ρ} {first second : ρ → σ → Prop}
    (same : ∀ value, (computation state).result = .ok value →
      (first value (computation state).state ↔ second value (computation state).state)) :
    AfterReturn computation first state ↔ AfterReturn computation second state :=
  forall₂_congr same

theorem EachReached.congr {body : ι → Computation σ κ ε Unit} {first second : ι → σ → Prop}
    {items : List ι} (same : ∀ item ∈ items, ∀ state, first item state ↔ second item state) :
    EachReached body first items state ↔ EachReached body second items state := by
  induction items generalizing state with
  | nil => exact Iff.rfl
  | cons item rest ih =>
      rw [List.forall_mem_cons] at same
      exact and_congr (same.1 state) (forall₂_congr fun _ _ => ih same.2)

theorem eachReached_iff_forall {body : ι → Computation σ κ ε Unit} {property : ι → σ → Prop}
    (returned : ∀ item state, (body item state).result = .ok ())
    (kept : ∀ item other state, property other (body item state).state ↔ property other state)
    {items : List ι} :
    EachReached body property items state ↔ ∀ item ∈ items, property item state := by
  induction items generalizing state with
  | nil => exact iff_of_true trivial fun _ member => absurd member List.not_mem_nil
  | cons item rest ih =>
      rw [EachReached, AfterReturn, List.forall_mem_cons]
      simp only [ih, kept, returned, forall_const]

end Conditions

end Computation

/-- A program that asks for answers and goes on with them. -/
inductive Program (Op : Type) (Answer : Op → Type) (ρ : Type) where
  | done (value : ρ)
  | ask (op : Op) (next : Answer op → Program Op Answer ρ)

namespace Program

open ScalarLM.Computation

variable {Op : Type} {Answer : Op → Type} {σ μ κ ε ρ ι : Type}

def run (handler : ∀ op, Computation σ κ ε (Answer op)) :
    Program Op Answer ρ → Computation σ κ ε ρ
  | done value => returns value
  | ask op next => (handler op).andThen fun answer => (next answer).run handler

def evaluate (answers : ∀ op, Option (Answer op)) : Program Op Answer ρ → Option ρ
  | done value => some value
  | ask op next => (answers op).bind fun answer => (next answer).evaluate answers

/-- Whatever it is answered, the program asks nothing else. -/
def Within (allowed : Op → Prop) : Program Op Answer ρ → Prop
  | done _ => True
  | ask op next => allowed op ∧ ∀ answer, (next answer).Within allowed

def trace (answers : ∀ op, Option (Answer op)) (shown : Op → List ι) :
    Program Op Answer ρ → List ι
  | done _ => []
  | ask op next =>
      shown op ++ (answers op).elim [] fun answer => (next answer).trace answers shown

theorem trace_closed (answers : ∀ op, Option (Answer op)) {shown : Op → List ι}
    {property : List ι → Prop} (nothing : property [])
    (join : ∀ front back, property front → property back → property (front ++ back))
    (each : ∀ op, property (shown op)) (program : Program Op Answer ρ) :
    property (program.trace answers shown) := by
  induction program with
  | done value => exact nothing
  | ask op next ih =>
      rw [trace]
      refine join _ _ (each op) ?_
      cases answers op with
      | none => exact nothing
      | some answer => exact ih answer

/-- Surroundings that do what is come by for a question, and then answer it, do so for the
program. -/
theorem simulates_trace {related : σ → μ → Prop} {allowed : Op → Prop}
    {handler : ∀ op, Computation σ κ ε (Answer op)} {come : ι → Computation μ κ ε Unit}
    {answers : ∀ op, Option (Answer op)} {shown : Op → List ι}
    (each : ∀ op, allowed op → ∃ answer, answers op = some answer ∧
      Simulates related (handler op) ((forEach come (shown op)).andThen fun _ => returns answer))
    (program : Program Op Answer ρ) (within : program.Within allowed) :
    ∃ value, program.evaluate answers = some value ∧
      Simulates related (program.run handler)
        ((forEach come (program.trace answers shown)).andThen fun _ => returns value) := by
  induction program with
  | done value =>
      refine ⟨value, rfl, ?_⟩
      rw [trace, forEach, returns_andThen]
      exact simulates_returns value
  | ask op next ih =>
      obtain ⟨answer, given, front⟩ := each op within.1
      obtain ⟨value, evaluated, back⟩ := ih answer (within.2 answer)
      refine ⟨value, by rw [evaluate, given, Option.bind_some, evaluated], ?_⟩
      rw [trace, given, forEach_append, andThen_assoc]
      have joined : ((forEach come (shown op)).andThen fun _ => (forEach come
          ((next answer).trace answers shown)).andThen fun _ => returns value) =
          ((forEach come (shown op)).andThen fun _ => returns answer).andThen fun _ =>
            (forEach come ((next answer).trace answers shown)).andThen fun _ => returns value := by
        rw [andThen_assoc]
        simp only [returns_andThen]
      refine joined ▸ simulatesTo_andThen (fun _ _ holds => holds) front ?_
      intro other returned
      obtain ⟨state, ended⟩ := returned
      have same : answer = other := by
        cases shownResult : (forEach come (shown op) state).result with
        | error cause =>
            rw [andThen_error shownResult] at ended
            cases ended
        | ok shownLast =>
            rw [andThen_ok shownResult] at ended
            injection ended
      rw [← same]
      exact back

end Program

end ScalarLM
