import Mathlib.Data.List.Basic
import Mathlib.Tactic.Common

/-! Loops whose body may raise and otherwise produces some items. -/

namespace ScalarLM

variable {α β : Type}

/-- Runs the body on every item and appends what the iterations produce; an
iteration that raises ends the loop. -/
def collect (body : α → Option (List β)) : List α → Option (List β)
  | [] => some []
  | item :: rest => do
      let here ← body item
      let later ← collect body rest
      some (here ++ later)

theorem collect_append (body : α → Option (List β)) (front back : List α) :
    collect body (front ++ back) =
      (collect body front).bind fun here => (collect body back).map (here ++ ·) := by
  induction front with
  | nil => simp [collect]
  | cons item rest ih =>
      rw [List.cons_append, collect, ih, collect]
      cases body item with
      | none => rfl
      | some here => cases collect body rest <;> cases collect body back <;> simp

theorem collect_singleton (body : α → Option (List β)) (item : α) :
    collect body [item] = body item := by
  simp [collect]

theorem collect_eq_flatMap (body : α → Option (List β)) (product : α → List β) (items : List α)
    (returns : ∀ item ∈ items, body item = some (product item)) :
    collect body items = some (items.flatMap product) := by
  induction items with
  | nil => rfl
  | cons item rest ih =>
      rw [collect, returns item List.mem_cons_self,
        ih fun other member => returns other (List.mem_cons_of_mem _ member), List.flatMap_cons]
      rfl

/-- When every iteration produces something there are at least as many products as
items. -/
theorem collect_of_products (body : α → Option (List β)) (items : List α)
    (returns : ∀ item ∈ items, ∃ here, body item = some here ∧ here ≠ []) :
    ∃ out, collect body items = some out ∧ items.length ≤ out.length := by
  induction items with
  | nil => exact ⟨[], rfl, Nat.le_refl _⟩
  | cons item rest ih =>
      obtain ⟨here, first, some_here⟩ := returns item List.mem_cons_self
      obtain ⟨later, others, enough⟩ :=
        ih fun other member => returns other (List.mem_cons_of_mem _ member)
      refine ⟨here ++ later, by rw [collect, first, others]; rfl, ?_⟩
      have positive := List.length_pos_iff.mpr some_here
      rw [List.length_cons, List.length_append]
      omega

theorem collect_isSome_iff (body : α → Option (List β)) (items : List α) :
    (collect body items).isSome ↔ ∀ item ∈ items, (body item).isSome := by
  induction items with
  | nil => simp [collect]
  | cons item rest ih =>
      rw [collect, List.forall_mem_cons, ← ih]
      cases body item with
      | none => simp
      | some here => cases collect body rest <;> simp

theorem mem_collect (body : α → Option (List β)) (items : List α) (out : List β)
    (run : collect body items = some out) (product : β) :
    product ∈ out ↔ ∃ item ∈ items, ∃ here, body item = some here ∧ product ∈ here := by
  induction items generalizing out with
  | nil =>
      simp only [collect, Option.some.injEq] at run
      subst run
      simp
  | cons item rest ih =>
      rw [collect] at run
      cases first : body item with
      | none => simp [first] at run
      | some here =>
          cases others : collect body rest with
          | none => simp [first, others] at run
          | some later =>
              simp only [first, others, Option.bind_eq_bind, Option.bind_some,
                Option.some.injEq] at run
              subst run
              rw [List.mem_append, ih later others]
              constructor
              · intro either
                rcases either with now | ⟨other, member, produced⟩
                · exact ⟨item, List.mem_cons_self, here, first, now⟩
                · exact ⟨other, List.mem_cons_of_mem _ member, produced⟩
              · intro given
                rcases given with ⟨other, member, produced, run, now⟩
                rcases List.mem_cons.mp member with rfl | later
                · rw [first, Option.some.injEq] at run
                  exact Or.inl (run ▸ now)
                · exact Or.inr ⟨other, later, produced, run, now⟩

end ScalarLM
