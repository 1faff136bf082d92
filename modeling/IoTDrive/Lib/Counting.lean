import Mathlib.Data.List.Basic

/-! Counting the elements of a list that satisfy a test, when one element is replaced or
taken out. The equations avoid subtraction, so that arithmetic can use them as they are. -/

namespace IoTDrive.Lib

variable {α : Type*} {p q r : α → Bool} {l : List α} {a : α} {i : ℕ}

/-- What one element adds to a count. -/
def one (b : Bool) : ℕ := if b then 1 else 0

@[simp] theorem one_true : one true = 1 := rfl

@[simp] theorem one_false : one false = 0 := rfl

theorem countP_modify_add (f : α → α) (h : l[i]? = some a) :
    (l.modify i f).countP p + one (p a) = l.countP p + one (p (f a)) := by
  induction l generalizing i with
  | nil => simp at h
  | cons b l ih =>
    cases i with
    | zero =>
      obtain rfl : b = a := by simpa using h
      simp only [List.modify_zero_cons, List.countP_cons, one]
      omega
    | succ i =>
      have ih := ih (i := i) (by simpa using h)
      simp only [List.modify_succ_cons, List.countP_cons]
      omega

theorem countP_set_add (b : α) (h : l[i]? = some a) :
    (l.set i b).countP p + one (p a) = l.countP p + one (p b) := by
  rw [List.set_eq_modify]
  exact countP_modify_add (fun _ => b) h

theorem countP_eraseIdx_add (h : l[i]? = some a) :
    (l.eraseIdx i).countP p + one (p a) = l.countP p := by
  induction l generalizing i with
  | nil => simp at h
  | cons b l ih =>
    cases i with
    | zero =>
      obtain rfl : b = a := by simpa using h
      simp [List.countP_cons, one]
    | succ i =>
      have ih := ih (i := i) (by simpa using h)
      simp only [List.eraseIdx_cons_succ, List.countP_cons]
      omega

/-- The weights of all elements together. -/
def total (f : α → ℕ) : List α → ℕ
  | [] => 0
  | b :: l => f b + total f l

theorem total_set_add {f : α → ℕ} (b : α) (h : l[i]? = some a) :
    total f (l.set i b) + f a = total f l + f b := by
  induction l generalizing i with
  | nil => simp at h
  | cons c l ih =>
    cases i with
    | zero =>
      obtain rfl : c = a := by simpa using h
      simp only [List.set_cons_zero, total]
      omega
    | succ i =>
      have ih := ih (i := i) (by simpa using h)
      simp only [List.set_cons_succ, total]
      omega

theorem total_concat {f : α → ℕ} (b : α) : total f (l ++ [b]) = total f l + f b := by
  induction l with
  | nil => simp [total]
  | cons c l ih =>
    rw [List.cons_append, total, ih, total]
    omega

theorem total_eraseIdx_add {f : α → ℕ} (h : l[i]? = some a) :
    total f (l.eraseIdx i) + f a = total f l := by
  induction l generalizing i with
  | nil => simp at h
  | cons c l ih =>
    cases i with
    | zero =>
      obtain rfl : c = a := by simpa using h
      simp only [List.eraseIdx_cons_zero, total]
      omega
    | succ i =>
      have ih := ih (i := i) (by simpa using h)
      simp only [List.eraseIdx_cons_succ, total]
      omega

/-- Weights up to `n`, on the elements that satisfy a test. -/
theorem total_le {f : α → ℕ} {n : ℕ} (h : ∀ a, f a ≤ n * one (p a)) :
    total f l ≤ n * l.countP p := by
  induction l with
  | nil => simp [total]
  | cons b l ih =>
    have hb := h b
    simp only [total, List.countP_cons, one, Nat.mul_add] at hb ⊢
    omega

/-- Two tests that exclude each other count within a common weaker one. -/
theorem countP_add_le (h : ∀ a, one (p a) + one (q a) ≤ one (r a)) :
    l.countP p + l.countP q ≤ l.countP r := by
  induction l with
  | nil => simp
  | cons b l ih =>
    have hb := h b
    simp only [List.countP_cons, one] at hb ⊢
    omega

end IoTDrive.Lib
