import Mathlib.Logic.Function.Basic
import Mathlib.Tactic.TypeStar

/-! Maps as functions to optional values: what is found in them after one key has been
given a value or taken out. -/

namespace IoTDrive.Lib

variable {K V : Type*} [DecidableEq K] {f : K → Option V} {k j : K} {v w : V}

theorem update_some_eq_some :
    Function.update f k (some v) j = some w ↔ j = k ∧ v = w ∨ j ≠ k ∧ f j = some w := by
  by_cases h : j = k
  · subst h
    simp
  · simp [h]

theorem update_none_eq_some :
    Function.update f k none j = some w ↔ j ≠ k ∧ f j = some w := by
  by_cases h : j = k
  · subst h
    simp
  · simp [h]

/-- A key that has a value is given another. -/
theorem isSome_update (h : f k = some w) :
    (Function.update f k (some v) j).isSome ↔ (f j).isSome := by
  by_cases hj : j = k
  · simp [hj, h]
  · rw [Function.update_of_ne hj]

theorem isSome_update_some (h : (f j).isSome) : (Function.update f k (some v) j).isSome := by
  by_cases hj : j = k
  · simp [hj]
  · rwa [Function.update_of_ne hj]

theorem isSome_update_none : (Function.update f k none j).isSome ↔ j ≠ k ∧ (f j).isSome := by
  by_cases h : j = k
  · subst h
    simp
  · simp [h]

end IoTDrive.Lib
