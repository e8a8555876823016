/-!
# Results that may fail

When a chain of steps succeeds, each of them does; when it fails, the first that fails decides.
-/

set_option autoImplicit false
set_option relaxedAutoImplicit false

namespace Metrology.Fallible

variable {ε φ α β : Type}

theorem bind_eq_ok_iff {result : Except ε α} {next : α → Except ε β} {value : β} :
    result.bind next = .ok value ↔ ∃ first, result = .ok first ∧ next first = .ok value := by
  cases result <;> simp [Except.bind]

theorem bind_eq_error_iff {result : Except ε α} {next : α → Except ε β} {error : ε} :
    result.bind next = .error error ↔
      result = .error error ∨ ∃ first, result = .ok first ∧ next first = .error error := by
  cases result <;> simp [Except.bind]

theorem map_eq_ok_iff {result : Except ε α} {function : α → β} {value : β} :
    result.map function = .ok value ↔ ∃ first, result = .ok first ∧ function first = value := by
  cases result <;> simp [Except.map]

theorem map_eq_error_iff {result : Except ε α} {function : α → β} {error : ε} :
    result.map function = .error error ↔ result = .error error := by
  cases result <;> simp [Except.map]

theorem map_map {γ : Type} (result : Except ε α) (first : α → β) (second : β → γ) :
    (result.map first).map second = result.map fun value ↦ second (first value) := by
  cases result <;> rfl

theorem mapError_eq_ok_iff {result : Except ε α} {function : ε → φ} {value : α} :
    result.mapError function = .ok value ↔ result = .ok value := by
  cases result with
  | ok first =>
    show (Except.ok first : Except φ α) = .ok value ↔ _
    rw [Except.ok.injEq, Except.ok.injEq]
  | error error =>
    show (Except.error (function error) : Except φ α) = .ok value ↔ _
    simp

theorem mapError_eq_error_iff {result : Except ε α} {function : ε → φ} {error : φ} :
    result.mapError function = .error error ↔
      ∃ first, result = .error first ∧ function first = error := by
  cases result with
  | ok value =>
    show (Except.ok value : Except φ α) = .error error ↔ _
    simp
  | error first =>
    show (Except.error (function first) : Except φ α) = .error error ↔ _
    simp

/-- Steps over a list that succeed at every member give the list of their values. -/
theorem mapM_eq_ok_map {step : α → Except ε β} {function : α → β} {list : List α}
    (hstep : ∀ member ∈ list, step member = .ok (function member)) :
    list.mapM step = .ok (list.map function) := by
  induction list with
  | nil => rfl
  | cons first rest ih =>
    rw [List.mapM_cons, hstep first (by simp),
      ih fun member hmember ↦ hstep member (List.mem_cons_of_mem first hmember)]
    rfl

end Metrology.Fallible
