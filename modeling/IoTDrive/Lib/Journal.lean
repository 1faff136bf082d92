import IoTDrive.Lib.Memory
import Mathlib.Data.List.Induction
import Mathlib.Data.List.Nodup

/-! Journals of block writes. Replaying a journal writes its blocks into an array one after
another. The value at a place depends only on the blocks that cover it, in their
order. So two journals with the same blocks have the same replay if blocks that
overlap stand in the same order in both. -/

namespace IoTDrive.Lib

variable {κ α : Type*}

/-- A named block of values for a position. -/
structure Block (κ α : Type*) where
  key : κ
  pos : ℕ
  values : List α
  deriving DecidableEq

namespace Block

def Covers (b : Block κ α) (i : ℕ) : Prop := b.pos ≤ i ∧ i < b.pos + b.values.length

instance (b : Block κ α) (i : ℕ) : Decidable (b.Covers i) := inferInstanceAs (Decidable (_ ∧ _))

/-- Some place is covered by both. -/
def Overlaps (b b' : Block κ α) : Prop := ∃ i, b.Covers i ∧ b'.Covers i

end Block

/-- The array after the blocks have been written. -/
def replay (fill : α) (l : List α) (bs : List (Block κ α)) : List α :=
  bs.foldl (fun l b => writeAt fill l b.pos b.values) l

theorem replay_append_singleton (fill : α) (l : List α) (bs : List (Block κ α)) (b : Block κ α) :
    replay fill l (bs ++ [b]) = writeAt fill (replay fill l bs) b.pos b.values := by
  simp [replay]

theorem replay_length {fill : α} {l : List α} {bs : List (Block κ α)}
    (h : ∀ b ∈ bs, b.pos + b.values.length ≤ l.length) : (replay fill l bs).length = l.length := by
  induction bs using List.reverseRecOn with
  | nil => rfl
  | append_singleton bs b ih =>
    have hlen := ih fun b' hb => h b' (List.mem_append_left _ hb)
    rw [replay_append_singleton, writeAt_length (by rw [hlen]; exact h b (by simp)), hlen]

/-- Only the blocks that cover a place matter there. -/
theorem getElem?_replay {fill : α} {l : List α} {bs : List (Block κ α)}
    (h : ∀ b ∈ bs, b.pos + b.values.length ≤ l.length) (i : ℕ) :
    (replay fill l bs)[i]? = (replay fill l (bs.filter (·.Covers i)))[i]? := by
  induction bs using List.reverseRecOn with
  | nil => rfl
  | append_singleton bs b ih =>
    have hbs : ∀ b' ∈ bs, b'.pos + b'.values.length ≤ l.length := fun b' hb =>
      h b' (List.mem_append_left _ hb)
    have hb := h b (by simp)
    have hlen : (replay fill l bs).length = l.length := replay_length hbs
    have hlen' : (replay fill l (bs.filter (·.Covers i))).length = l.length :=
      replay_length fun b' hb' => hbs b' (List.mem_of_mem_filter hb')
    rw [replay_append_singleton, getElem?_writeAt (by omega)]
    by_cases hc : b.Covers i
    · have hf : (bs ++ [b]).filter (·.Covers i) = bs.filter (·.Covers i) ++ [b] := by simp [hc]
      rw [Block.Covers] at hc
      rw [if_pos hc, hf, replay_append_singleton, getElem?_writeAt (by omega), if_pos hc]
    · have hf : (bs ++ [b]).filter (·.Covers i) = bs.filter (·.Covers i) := by simp [hc]
      rw [Block.Covers] at hc
      rw [if_neg hc, hf]
      exact ih hbs

theorem replay_append (fill : α) (l : List α) (bs bs' : List (Block κ α)) :
    replay fill l (bs ++ bs') = replay fill (replay fill l bs) bs' := List.foldl_append

/-- The value at a place is the old one, or that of a block that covers it. -/
theorem getElem?_replay_cases {fill : α} {l : List α} {bs : List (Block κ α)}
    (h : ∀ b ∈ bs, b.pos + b.values.length ≤ l.length) (i : ℕ) :
    (∀ b ∈ bs, ¬ b.Covers i) ∧ (replay fill l bs)[i]? = l[i]? ∨
      ∃ b ∈ bs, b.Covers i ∧ (replay fill l bs)[i]? = b.values[i - b.pos]? := by
  induction bs using List.reverseRecOn with
  | nil => exact .inl ⟨by simp, rfl⟩
  | append_singleton bs b ih =>
    have hbs : ∀ b' ∈ bs, b'.pos + b'.values.length ≤ l.length := fun b' hb =>
      h b' (List.mem_append_left _ hb)
    have hb := h b (by simp)
    have hlen : (replay fill l bs).length = l.length := replay_length hbs
    have hget : (writeAt fill (replay fill l bs) b.pos b.values)[i]? =
        if b.pos ≤ i ∧ i < b.pos + b.values.length then b.values[i - b.pos]?
        else (replay fill l bs)[i]? := getElem?_writeAt (by omega) i
    rw [replay_append_singleton, hget]
    by_cases hc : b.Covers i
    · exact .inr ⟨b, by simp, hc, if_pos hc⟩
    · rw [if_neg (show ¬ (b.pos ≤ i ∧ i < b.pos + b.values.length) from hc)]
      rcases ih hbs with ⟨hnone, hold⟩ | ⟨b', hb', hcov, hval⟩
      · refine .inl ⟨fun b' hb' => ?_, hold⟩
        rcases List.mem_append.mp hb' with hb' | hb'
        · exact hnone b' hb'
        · exact List.mem_singleton.mp hb' ▸ hc
      · exact .inr ⟨b', List.mem_append_left _ hb', hcov, hval⟩

/-! ### Two orders -/

/-- In a list without repetitions two values stand in one order only. -/
theorem not_sublist_swap {l : List α} (hn : l.Nodup) {a b : α} (h : [a, b].Sublist l) :
    ¬ [b, a].Sublist l := by
  induction l with
  | nil => simp at h
  | cons x l ih =>
    obtain ⟨hx, hn⟩ := List.nodup_cons.mp hn
    intro h'
    rcases List.sublist_cons_iff.mp h with hab | ⟨r, he, hb⟩
    · rcases List.sublist_cons_iff.mp h' with hba | ⟨r, he, ha⟩
      · exact ih hn hab hba
      · obtain ⟨rfl, rfl⟩ := List.cons.inj he
        exact hx (hab.subset (List.mem_cons_of_mem a List.mem_cons_self))
    · obtain ⟨rfl, rfl⟩ := List.cons.inj he
      rcases List.sublist_cons_iff.mp h' with hba | ⟨r, he, ha⟩
      · exact hx (hba.subset (List.mem_cons_of_mem b List.mem_cons_self))
      · obtain ⟨rfl, rfl⟩ := List.cons.inj he
        exact hx (hb.subset List.mem_cons_self)

/-- Two lists of the same values that agree on the order of those with a property. -/
theorem filter_eq_of_same_order {l l' : List α} (hp : l.Perm l') (hn : l'.Nodup) {p : α → Bool}
    (ho : ∀ a b, p a = true → p b = true → [a, b].Sublist l → [a, b].Sublist l') :
    l.filter p = l'.filter p := by
  have hl : (l.filter p).Pairwise fun a b => [a, b].Sublist l' :=
    List.pairwise_iff_forall_sublist.mpr fun {a b} h => by
      have ha : a ∈ l.filter p := h.subset (by simp)
      have hb : b ∈ l.filter p := h.subset (by simp)
      exact ho a b (List.mem_filter.mp ha).2 (List.mem_filter.mp hb).2
        (h.trans List.filter_sublist)
  have hl' : (l'.filter p).Pairwise fun a b => [a, b].Sublist l' :=
    List.pairwise_iff_forall_sublist.mpr fun h => h.trans List.filter_sublist
  exact List.Perm.eq_of_pairwise (fun a b _ _ hab hba => absurd hba (not_sublist_swap hn hab))
    hl hl' (hp.filter p)

/-- Overlapping blocks in the same order: the same replay. -/
theorem replay_eq_of_same_order {fill : α} {l : List α} {bs bs' : List (Block κ α)}
    (hp : bs.Perm bs') (hn : bs'.Nodup) (hin : ∀ b ∈ bs, b.pos + b.values.length ≤ l.length)
    (ho : ∀ b b' : Block κ α, b.Overlaps b' → [b, b'].Sublist bs → [b, b'].Sublist bs') :
    replay fill l bs = replay fill l bs' := by
  apply List.ext_getElem?
  intro i
  rw [getElem?_replay hin, getElem?_replay fun b hb => hin b (hp.mem_iff.mpr hb),
    filter_eq_of_same_order hp hn fun b b' hb hb' =>
      ho b b' ⟨i, of_decide_eq_true hb, of_decide_eq_true hb'⟩]

end IoTDrive.Lib
