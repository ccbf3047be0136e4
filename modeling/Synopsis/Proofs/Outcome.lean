/-!
# Outcomes of computations

A computation ends with a result or with a fault. These facts take outcomes apart, whatever the results
and the faults are.
-/

namespace Synopsis

variable {ε α β : Type}

/-- Two steps in a row succeed exactly when the first does and the second does with its result. -/
theorem bind_eq_ok_iff (first : Except ε α) (next : α → Except ε β) (result : β) :
    (first >>= next) = .ok result ↔ ∃ value, first = .ok value ∧ next value = .ok result := by
  cases first <;> simp [bind, Except.bind]

/-- An outcome with a result is a success. -/
theorem exists_of_toOption_isSome {outcome : Except ε α} (h : outcome.toOption.isSome = true) :
    ∃ result, outcome = .ok result := by
  cases outcome with
  | error fault => exact Bool.noConfusion h
  | ok result => exact ⟨result, rfl⟩

/-- An outcome without a result is a failure. -/
theorem exists_of_toOption_isNone {outcome : Except ε α} (h : outcome.toOption.isNone = true) :
    ∃ fault, outcome = .error fault := by
  cases outcome with
  | error fault => exact ⟨fault, rfl⟩
  | ok result => exact Bool.noConfusion h

end Synopsis
