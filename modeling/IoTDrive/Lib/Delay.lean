import Mathlib.Data.List.Basic
import Mathlib.Data.List.Perm.Basic

/-! Loss as delay. Of two networks that carry the same messages, one loses some of them where
the other still has them on their way. Whatever can be taken from the first can be taken
from the second, so what holds of a network that only delays tells what a network that
loses may still do. The messages that may be lost are given by a property. -/

namespace IoTDrive.Lib

open scoped List

variable {α : Type*} {p : α → Prop} {slow fast l : List α} {a : α} {i : ℕ}

/-- The slow network has the messages of the other one, and lost ones besides. -/
def Delays (p : α → Prop) (slow fast : List α) : Prop :=
  ∃ lost, (∀ a ∈ lost, p a) ∧ slow ~ lost ++ fast

namespace Delays

theorem refl (l : List α) : Delays p l l := ⟨[], by simp, .refl l⟩

theorem mem (h : Delays p slow fast) (ha : a ∈ slow) : p a ∨ a ∈ fast := by
  obtain ⟨lost, hlost, hperm⟩ := h
  exact (List.mem_append.mp (hperm.mem_iff.mp ha)).imp_left (hlost a)

theorem append (h : Delays p slow fast) (l : List α) : Delays p (slow ++ l) (fast ++ l) := by
  obtain ⟨lost, hlost, hperm⟩ := h
  exact ⟨lost, hlost, by rw [← List.append_assoc]; exact hperm.append_right l⟩

theorem perm_cons_eraseIdx (ha : l[i]? = some a) : l ~ a :: l.eraseIdx i := by
  obtain ⟨hlt, rfl⟩ := List.getElem?_eq_some_iff.mp ha
  exact (List.getElem_cons_eraseIdx_perm hlt).symm

/-- A message is lost. -/
theorem lose (h : Delays p slow fast) (ha : ∀ a ∈ fast[i]?, p a) :
    Delays p slow (fast.eraseIdx i) := by
  obtain ⟨lost, hlost, hperm⟩ := h
  cases hi : fast[i]? with
  | none =>
    rw [List.eraseIdx_of_length_le (List.getElem?_eq_none_iff.mp hi)]
    exact ⟨lost, hlost, hperm⟩
  | some a =>
    refine ⟨a :: lost, fun b hb => ?_, ?_⟩
    · rcases List.mem_cons.mp hb with rfl | hb
      · exact ha b hi
      · exact hlost b hb
    · calc slow ~ lost ++ fast := hperm
        _ ~ lost ++ a :: fast.eraseIdx i := (perm_cons_eraseIdx hi).append_left lost
        _ ~ a :: lost ++ fast.eraseIdx i := List.perm_middle

/-- A message that arrives. -/
theorem take (h : Delays p slow fast) (ha : fast[i]? = some a) :
    ∃ k, slow[k]? = some a ∧ Delays p (slow.eraseIdx k) (fast.eraseIdx i) := by
  obtain ⟨lost, hlost, hperm⟩ := h
  have hmem : a ∈ slow := hperm.mem_iff.mpr (List.mem_append_right _ (List.mem_of_getElem? ha))
  obtain ⟨k, hk⟩ := List.getElem?_of_mem hmem
  refine ⟨k, hk, lost, hlost, ?_⟩
  have hcons : a :: slow.eraseIdx k ~ a :: (lost ++ fast.eraseIdx i) :=
    calc a :: slow.eraseIdx k ~ slow := (perm_cons_eraseIdx hk).symm
      _ ~ lost ++ fast := hperm
      _ ~ lost ++ a :: fast.eraseIdx i := (perm_cons_eraseIdx ha).append_left lost
      _ ~ a :: (lost ++ fast.eraseIdx i) := List.perm_middle
  exact hcons.cons_inv

end Delays

end IoTDrive.Lib
