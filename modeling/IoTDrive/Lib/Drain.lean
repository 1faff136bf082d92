import Mathlib.Data.List.Perm.Basic
import Mathlib.Tactic.TypeStar

/-! Draining a priority queue: elements are taken one after another, each time one that no
element left is above. Which one of several such is taken is open. What comes
out is a rearrangement of what was there, with no element before one above it. -/

namespace IoTDrive.Lib

variable {α : Type*} {less : α → α → Prop} {q order rest : List α}

/-- From `q` the elements of `order` are taken in turn, and `rest` is left. -/
inductive Drains (less : α → α → Prop) : List α → List α → List α → Prop where
  | done (q : List α) : Drains less q [] q
  | take {q order rest : List α} (k : ℕ) (t : α) (hk : q[k]? = some t)
    (htop : ∀ u ∈ q, ¬ less t u) (h : Drains less (q.eraseIdx k) order rest) :
    Drains less q (t :: order) rest

theorem Drains.perm (h : Drains less q order rest) : q.Perm (order ++ rest) := by
  induction h with
  | done q => exact .refl q
  | take k t hk htop h ih =>
    obtain ⟨hlt, rfl⟩ := List.getElem?_eq_some_iff.mp hk
    exact (List.getElem_cons_eraseIdx_perm hlt).symm.trans (ih.cons _)

theorem Drains.pairwise (h : Drains less q order rest) :
    order.Pairwise fun a b => ¬ less a b := by
  induction h with
  | done q => exact .nil
  | take k t hk htop h ih =>
    refine List.pairwise_cons.mpr ⟨fun u hu => htop u ?_, ih⟩
    have hmem := h.perm.symm.subset (List.mem_append_left _ hu)
    exact List.mem_of_mem_eraseIdx hmem

end IoTDrive.Lib
