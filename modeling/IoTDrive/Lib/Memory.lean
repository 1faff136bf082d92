import Mathlib.Data.Nat.Notation
import Mathlib.Data.List.Basic
import Mathlib.Tactic.TypeStar
import Mathlib.Tactic.SplitIfs

/-! Arrays of values as lists: reading from an allocation and past its end, writing a
block at a position, and the same block write as a sequence of single stores. A
block write past the end of an array extends it with a fill value. -/

namespace IoTDrive.Lib

variable {α : Type*}

/-- The `n` values of memory from the start of an allocation on; past its end stands
what `beyond` says. -/
def memRead (buf : List α) (beyond : ℕ → α) (n : ℕ) : List α :=
  (List.range n).map fun i => buf[i]?.getD (beyond i)

@[simp] theorem memRead_length (buf : List α) (beyond : ℕ → α) (n : ℕ) :
    (memRead buf beyond n).length = n := by simp [memRead]

theorem memRead_of_le {buf : List α} {n : ℕ} (beyond : ℕ → α) (h : n ≤ buf.length) :
    memRead buf beyond n = buf.take n := by
  apply List.ext_getElem (by simp; omega)
  intro i h1 h2
  have hi : i < buf.length := by simp at h1; omega
  simp [memRead, hi]

theorem memRead_self (buf : List α) (beyond : ℕ → α) : memRead buf beyond buf.length = buf := by
  rw [memRead_of_le beyond (Nat.le_refl _), List.take_length]

/-- Reading one value too many keeps the array and adds the value behind it. -/
theorem memRead_succ (buf : List α) (beyond : ℕ → α) :
    memRead buf beyond (buf.length + 1) = buf ++ [beyond buf.length] := by
  have h := memRead_self buf beyond
  simp only [memRead, List.range_succ, List.map_append] at h ⊢
  rw [h]
  simp

/-! ### Block writes -/

/-- Write a block at `pos`, extending the array with `fill` where it ends before. -/
def writeAt (fill : α) (l : List α) (pos : ℕ) (xs : List α) : List α :=
  (l ++ List.replicate (pos - l.length) fill).take pos ++ (xs ++ l.drop (pos + xs.length))

theorem writeAt_length {fill : α} {l xs : List α} {pos : ℕ} (h : pos + xs.length ≤ l.length) :
    (writeAt fill l pos xs).length = l.length := by
  simp [writeAt]
  omega

theorem getElem?_writeAt {fill : α} {l xs : List α} {pos : ℕ} (h : pos ≤ l.length) (i : ℕ) :
    (writeAt fill l pos xs)[i]? =
      if pos ≤ i ∧ i < pos + xs.length then xs[i - pos]? else l[i]? := by
  have he : writeAt fill l pos xs = l.take pos ++ (xs ++ l.drop (pos + xs.length)) := by
    simp [writeAt, Nat.sub_eq_zero_of_le h]
  have hp : (l.take pos).length = pos := by simp; omega
  rw [he, List.getElem?_append, hp]
  split_ifs with h1 h2 h2
  · omega
  · exact List.getElem?_take_of_lt h1
  · rw [List.getElem?_append_left (by omega)]
  · rw [List.getElem?_append_right (by omega), List.getElem?_drop]
    congr 1
    omega

/-- Reading `n` values at `pos` of an array that holds them. -/
theorem getElem?_take_drop {l : List α} {pos n i : ℕ} (hi : i < n) :
    ((l.drop pos).take n)[i]? = l[pos + i]? := by
  rw [List.getElem?_take_of_lt hi, List.getElem?_drop]

/-- The values of an array with one more at its end. -/
theorem getElem?_append_singleton {l : List α} {x y : α} {i : ℕ} :
    (l ++ [x])[i]? = some y ↔ l[i]? = some y ∨ i = l.length ∧ x = y := by
  rw [List.getElem?_append]
  split_ifs with h
  · simp [Nat.ne_of_lt h]
  · rcases Nat.eq_or_lt_of_le (Nat.le_of_not_lt h) with rfl | hlt
    · simp
    · simp [Nat.ne_of_gt hlt, Nat.sub_ne_zero_of_lt hlt, Nat.le_of_lt hlt]

/-- Blocks written one after another, where some are left out: every position keeps its value
or has one from a block that covers it. -/
theorem foldl_blocks {β : Type*} {f : List α → β → List α} {pos : β → ℕ}
    {block : β → Option (List α)} {fill : α} {n : ℕ} : ∀ {blocks : List β} {buf : List α},
    (∀ b ∈ blocks, (∀ l, f l b = (block b).elim l (writeAt fill l (pos b))) ∧
      ∀ xs, block b = some xs → pos b + xs.length ≤ n) →
    buf.length = n →
    (blocks.foldl f buf).length = n ∧ ∀ i < n,
      (blocks.foldl f buf)[i]? = buf[i]? ∧
          (∀ b ∈ blocks, ∀ xs, block b = some xs → ¬ (pos b ≤ i ∧ i < pos b + xs.length)) ∨
        ∃ b ∈ blocks, ∃ xs, block b = some xs ∧ pos b ≤ i ∧ i < pos b + xs.length ∧
          (blocks.foldl f buf)[i]? = xs[i - pos b]?
  | [], buf, _, hb => ⟨hb, fun i _ => .inl ⟨rfl, fun b hmem => by cases hmem⟩⟩
  | b :: blocks, buf, hf, hb => by
    obtain ⟨heq, hin⟩ := hf b List.mem_cons_self
    have hlen : (f buf b).length = n := by
      rw [heq]
      cases hblock : block b with
      | none => exact hb
      | some xs =>
        have hle := hin xs hblock
        rw [Option.elim_some, writeAt_length (by omega), hb]
    obtain ⟨hl, hi⟩ := foldl_blocks (fun b' h' => hf b' (.tail _ h')) hlen
    refine ⟨hl, fun i hlt => ?_⟩
    rcases hi i hlt with ⟨hval, hnone⟩ | ⟨b', hb', xs, hblock, hle, hlt', hval⟩
    · -- no later block covers the position: its value is from this one or older
      rw [List.foldl_cons, hval, heq]
      cases hblock : block b with
      | none =>
        refine .inl ⟨rfl, ?_⟩
        intro b' hb' xs hxs
        rcases List.mem_cons.mp hb' with rfl | hb'
        · rw [hblock] at hxs
          cases hxs
        · exact hnone b' hb' xs hxs
      | some xs =>
        have hle := hin xs hblock
        rw [Option.elim_some, getElem?_writeAt (by omega)]
        by_cases hcov : pos b ≤ i ∧ i < pos b + xs.length
        · exact .inr ⟨b, List.mem_cons_self, xs, hblock, hcov.1, hcov.2, if_pos hcov⟩
        · refine .inl ⟨if_neg hcov, ?_⟩
          intro b' hb' ys hys
          rcases List.mem_cons.mp hb' with rfl | hb'
          · obtain rfl := Option.some.inj (hblock.symm.trans hys)
            exact hcov
          · exact hnone b' hb' ys hys
    · exact .inr ⟨b', .tail _ hb', xs, hblock, hle, hlt', hval⟩

/-- Blocks written one after another, all cut out of one table of values: what they cover
holds the values of the table, in whatever order they come. -/
theorem foldl_writeAt {β : Type*} {f : List α → β → List α} {pos len : β → ℕ} {fill : α}
    {v : ℕ → α} {n : ℕ} {blocks : List β} {buf : List α}
    (hf : ∀ b ∈ blocks, pos b + len b ≤ n ∧
      ∀ l, f l b = writeAt fill l (pos b) ((List.range' (pos b) (len b)).map v))
    (hb : buf.length = n) :
    (blocks.foldl f buf).length = n ∧ ∀ i < n,
      i ∈ blocks.flatMap (fun b => List.range' (pos b) (len b)) ∨ buf[i]? = some (v i) →
        (blocks.foldl f buf)[i]? = some (v i) := by
  have hblocks : ∀ b ∈ blocks,
      (∀ l, f l b =
        (some ((List.range' (pos b) (len b)).map v)).elim l (writeAt fill l (pos b))) ∧
        ∀ xs, some ((List.range' (pos b) (len b)).map v) = some xs → pos b + xs.length ≤ n := by
    intro b hmem
    obtain ⟨hin, heq⟩ := hf b hmem
    refine ⟨heq, fun xs hxs => ?_⟩
    rw [← Option.some.inj hxs]
    simpa using hin
  obtain ⟨hl, hi⟩ := foldl_blocks hblocks hb
  refine ⟨hl, fun i hlt h => ?_⟩
  rcases hi i hlt with ⟨hval, hnone⟩ | ⟨b, hmem, xs, hxs, hle, hlt', hval⟩
  · rcases h with h | h
    · obtain ⟨b, hmem, hcov⟩ := List.mem_flatMap.mp h
      exact absurd (by simpa using List.mem_range'_1.mp hcov) (hnone b hmem _ rfl)
    · rw [hval, h]
  · obtain rfl := Option.some.inj hxs
    rw [List.length_map, List.length_range'] at hlt'
    have hsub : i - pos b < len b := by omega
    rw [hval, List.getElem?_map, List.getElem?_range' hsub, Option.map_some]
    congr 2
    omega

/-! ### Single stores -/

/-- The stores of a block write, in order. -/
def blockStores (pos : ℕ) (xs : List α) : List (ℕ × α) :=
  xs.zipIdx.map fun p => (pos + p.2, p.1)

def store (l : List α) (s : ℕ × α) : List α := l.set s.1 s.2

theorem blockStores_cons (pos : ℕ) (x : α) (xs : List α) :
    blockStores pos (x :: xs) = (pos, x) :: blockStores (pos + 1) xs := by
  simp only [blockStores, List.zipIdx_cons, List.map_cons, Nat.add_zero, Nat.zero_add]
  congr 1
  rw [List.zipIdx_succ, List.map_map]
  apply List.map_congr_left
  intro p _
  simp only [Function.comp_apply, Prod.mk.injEq, and_true]
  omega

/-- Inside the array a block write is the sequence of its single stores. -/
theorem foldl_store_blockStores (fill : α) (xs : List α) :
    ∀ (l : List α) (pos : ℕ), pos + xs.length ≤ l.length →
      (blockStores pos xs).foldl store l = writeAt fill l pos xs := by
  induction xs with
  | nil =>
    intro l pos h
    have h' : pos ≤ l.length := by simpa using h
    simp [blockStores, writeAt, Nat.sub_eq_zero_of_le h']
  | cons x xs ih =>
    intro l pos h
    simp only [List.length_cons] at h
    have hset : (l.set pos x).length = l.length := List.length_set
    rw [blockStores_cons, List.foldl_cons, store, ih _ _ (by rw [hset]; omega)]
    apply List.ext_getElem?
    intro i
    rw [getElem?_writeAt (by rw [hset]; omega), getElem?_writeAt (by omega), List.getElem?_set]
    simp only [List.length_cons]
    split_ifs with h1 h2 h3 h4 h5 h6
    · rw [show i - pos = (i - (pos + 1)) + 1 by omega, List.getElem?_cons_succ]
    · omega
    · subst h3; simp
    · omega
    · omega
    · omega
    · omega
    · rfl

end IoTDrive.Lib
