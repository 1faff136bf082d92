import Mathlib.Data.List.Basic
import Mathlib.Tactic.SplitIfs
import Mathlib.Tactic.TypeStar

/-! A resource that threads take and give back, such as a mutex. A thread is where its
phase says, and the phase says whether the thread has the resource. -/

namespace IoTDrive.Lib

variable {P : Type*} {has : P → Bool} {threads : List P} {owner : Option ℕ} {i j : ℕ} {p p' q : P}

/-- The owner is the one thread whose phase has the resource. -/
def Owned (has : P → Bool) (threads : List P) (owner : Option ℕ) : Prop :=
  ∀ i, owner = some i ↔ ∃ p, threads[i]? = some p ∧ has p = true

namespace Owned

theorem has_iff (h : Owned has threads owner) (hp : threads[i]? = some p) :
    has p = true ↔ owner = some i := by
  rw [h i, hp]
  simp

/-- Two threads that have it are one. -/
theorem unique (h : Owned has threads owner) (hp : threads[i]? = some p) (hq : threads[j]? = some q)
    (hhas : has p = true) (hhas' : has q = true) : i = j := by
  have hi := (h.has_iff hp).mp hhas
  have hj := (h.has_iff hq).mp hhas'
  exact Option.some.inj (hi.symm.trans hj)

/-- Where the thread stands that goes on, and where the others stand. -/
theorem exists_set (hp : threads[i]? = some p) :
    (∃ q, (threads.set i p')[j]? = some q ∧ has q = true) ↔
      if j = i then has p' = true else ∃ q, threads[j]? = some q ∧ has q = true := by
  have hi : i < threads.length := (List.getElem?_eq_some_iff.mp hp).1
  rw [List.getElem?_set]
  by_cases hj : i = j
  · subst hj
    simp [hi]
  · simp [hj, Ne.symm hj]

theorem keep (h : Owned has threads owner) (hp : threads[i]? = some p) (hsame : has p' = has p) :
    Owned has (threads.set i p') owner := by
  intro j
  rw [exists_set hp]
  split_ifs with hj
  · rw [hsame, hj, h.has_iff hp]
  · exact h j

theorem take (h : Owned has threads owner) (hp : threads[i]? = some p) (hfree : owner = none)
    (hhas : has p' = true) : Owned has (threads.set i p') (some i) := by
  intro j
  rw [exists_set hp]
  split_ifs with hj
  · simp [hj, hhas]
  · rw [← h j, hfree]
    simp [Ne.symm hj]

theorem give (h : Owned has threads owner) (hp : threads[i]? = some p) (hhas : has p = true)
    (hhas' : has p' = false) : Owned has (threads.set i p') none := by
  intro j
  rw [exists_set hp]
  split_ifs with hj
  · simp [hhas']
  · rw [← h j, (h.has_iff hp).mp hhas]
    simp [Ne.symm hj]

end Owned

end IoTDrive.Lib
