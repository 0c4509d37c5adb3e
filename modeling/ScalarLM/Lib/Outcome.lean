/-! Computations that may fail. -/

namespace ScalarLM

variable {ε α β : Type}

theorem ok_of_bind {first : Except ε α} {next : α → Except ε β} {final : β}
    (run : first >>= next = .ok final) :
    ∃ middle, first = .ok middle ∧ next middle = .ok final := by
  cases first with
  | error failure => cases run
  | ok middle => exact ⟨middle, rfl, run⟩

theorem mapM_ok (step : α → Except ε β) (value : α → β) (inputs : List α)
    (returns : ∀ input ∈ inputs, step input = .ok (value input)) :
    inputs.mapM step = .ok (inputs.map value) := by
  induction inputs with
  | nil => rfl
  | cons input rest ih =>
      rw [List.mapM_cons, returns input List.mem_cons_self,
        ih fun other member => returns other (List.mem_cons_of_mem _ member)]
      rfl

end ScalarLM
