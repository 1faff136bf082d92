import IoTDrive.Stripe.Manager
import Mathlib.Data.Finset.Insert
import Mathlib.Data.Finset.Basic
import Mathlib.Order.Disjoint

/-! Where the drive's bytes live. A cell is a minion and an offset in its file. The
splitter gives every drive byte a primary cell and a backup cell, both at the
byte's offset inside its chunk. Since the file of a minion is no larger than one
chunk, the backup cell of a byte is the primary cell of the byte one chunk later:
two addresses share a cell exactly when they have the same offset in cyclically
neighbouring chunks. -/

namespace IoTDrive.Stripe

inductive MirrorRole where
  | primary | backup
  deriving DecidableEq, Repr

namespace MinionManager

variable (M : MinionManager)

/-- The minion that holds one of the two copies of a drive byte. -/
def minionOf : MirrorRole → ℕ → ℕ
  | .primary, a => getPrimaryIndex a M.mbMinion
  | .backup, a => getBackupIndex (getPrimaryIndex a M.mbMinion) M.numMinions

/-- The cell of one of the two copies. -/
def cell (r : MirrorRole) (a : ℕ) : ℕ × ℕ := (M.minionOf r a, a % M.mbMinion)

def cells (a : ℕ) : Finset (ℕ × ℕ) := {M.cell .primary a, M.cell .backup a}

/-- The two bytes have the same offset in chunks that are mirrored on one another. -/
def Neighbours (a b : ℕ) : Prop :=
  a % M.mbMinion = b % M.mbMinion ∧
    (M.minionOf .backup a = M.minionOf .primary b ∨ M.minionOf .backup b = M.minionOf .primary a)

instance (a b : ℕ) : Decidable (M.Neighbours a b) := inferInstanceAs (Decidable (_ ∧ _))

/-- No cell is shared between two drive bytes, and no byte has both copies on one
minion. -/
def PlacementSound : Prop :=
  (∀ a < M.getDriveSize, ∀ b < M.getDriveSize, a ≠ b → Disjoint (M.cells a) (M.cells b)) ∧
    ∀ a < M.getDriveSize, M.minionOf .primary a ≠ M.minionOf .backup a

variable {M}

theorem eq_of_primary_eq {a b : ℕ} (hm : M.minionOf .primary a = M.minionOf .primary b)
    (ho : a % M.mbMinion = b % M.mbMinion) : a = b := by
  simp only [minionOf, getPrimaryIndex] at hm
  rw [← Nat.div_add_mod a M.mbMinion, ← Nat.div_add_mod b M.mbMinion, hm, ho]

theorem eq_of_backup_eq {a b : ℕ} (ha : a < M.getDriveSize) (hb : b < M.getDriveSize)
    (hm : M.minionOf .backup a = M.minionOf .backup b) (ho : a % M.mbMinion = b % M.mbMinion) :
    a = b :=
  eq_of_primary_eq (getBackupIndex_injective (div_lt_numMinions ha) (div_lt_numMinions hb) hm) ho

/-- Two copies of different bytes in one cell: the bytes are neighbours. -/
theorem neighbours_of_cell_eq {a b : ℕ} (ha : a < M.getDriveSize) (hb : b < M.getDriveSize)
    (hab : a ≠ b) {r q : MirrorRole} (h : M.cell r a = M.cell q b) : M.Neighbours a b := by
  obtain ⟨hm, ho⟩ := Prod.ext_iff.mp h
  simp only [cell] at hm ho
  cases r <;> cases q
  · exact absurd (eq_of_primary_eq hm ho) hab
  · exact ⟨ho, .inr hm.symm⟩
  · exact ⟨ho, .inl hm⟩
  · exact absurd (eq_of_backup_eq ha hb hm ho) hab

theorem mem_cells {a : ℕ} {c : ℕ × ℕ} : c ∈ M.cells a ↔ ∃ r, c = M.cell r a := by
  simp only [cells, Finset.mem_insert, Finset.mem_singleton]
  constructor
  · rintro (h | h)
    · exact ⟨.primary, h⟩
    · exact ⟨.backup, h⟩
  · rintro ⟨r, h⟩
    cases r
    · exact .inl h
    · exact .inr h

/-- Different bytes share a cell exactly when they are neighbours. -/
theorem disjoint_cells_iff {a b : ℕ} (ha : a < M.getDriveSize) (hb : b < M.getDriveSize)
    (hab : a ≠ b) : Disjoint (M.cells a) (M.cells b) ↔ ¬ M.Neighbours a b := by
  rw [Finset.disjoint_left]
  constructor
  · rintro hd ⟨ho, h | h⟩
    · exact hd (mem_cells.mpr ⟨.backup, rfl⟩)
        (mem_cells.mpr ⟨.primary, by simp only [cell, h, ho]⟩)
    · exact hd (mem_cells.mpr ⟨.primary, rfl⟩)
        (mem_cells.mpr ⟨.backup, by simp only [cell, h, ho]⟩)
  · intro hn c hc hc'
    obtain ⟨r, rfl⟩ := mem_cells.mp hc
    obtain ⟨q, hq⟩ := mem_cells.mp hc'
    exact hn (neighbours_of_cell_eq ha hb hab hq)

/-- The first byte of the drive and the first byte of the second chunk. -/
theorem neighbours_first_chunks (h : 2 ≤ M.numMinions) : M.Neighbours 0 M.mbMinion := by
  refine ⟨by simp, .inl ?_⟩
  have h0 : (0 : ℕ) < M.numMinions := by omega
  have hd : M.mbMinion / M.mbMinion = 1 := Nat.div_self M.mb_pos
  simp only [minionOf, getPrimaryIndex, Nat.zero_div, hd]
  rcases getBackupIndex_cases h0 with ⟨e, -⟩ | ⟨-, h1⟩
  · exact e
  · omega

/-- The placement is sound for no geometry whose drive size does not wrap: exactly
the bytes at one offset of cyclically neighbouring chunks share a cell, and the
two copies of a byte are on different minions exactly with two or more minions. -/
theorem mirror_placement (M : MinionManager) (hw : M.numMinions * M.mbMinion < sizeMod) :
    ¬ M.PlacementSound ∧
      (∀ a < M.getDriveSize, ∀ b < M.getDriveSize, a ≠ b →
        (Disjoint (M.cells a) (M.cells b) ↔ ¬ M.Neighbours a b)) ∧
      ∀ a < M.getDriveSize, (M.minionOf .primary a ≠ M.minionOf .backup a ↔ 2 ≤ M.numMinions) := by
  have hsize := driveSize_eq hw
  have hpos : 0 < M.getDriveSize := by
    rw [hsize]; exact Nat.mul_pos M.minions_pos M.mb_pos
  have htwo : ∀ a < M.getDriveSize,
      (M.minionOf .primary a ≠ M.minionOf .backup a ↔ 2 ≤ M.numMinions) := fun a ha =>
    getBackupIndex_ne_iff (div_lt_numMinions ha)
  refine ⟨?_, fun a ha b hb hab => disjoint_cells_iff ha hb hab, htwo⟩
  rintro ⟨hdisj, hdiff⟩
  have h2 : 2 ≤ M.numMinions := (htwo 0 hpos).mp (hdiff 0 hpos)
  have hb : M.mbMinion < M.getDriveSize := by
    rw [hsize]
    calc M.mbMinion < 2 * M.mbMinion := by have := M.mb_pos; omega
      _ ≤ M.numMinions * M.mbMinion := Nat.mul_le_mul_right _ h2
  have hd := hdisj 0 hpos M.mbMinion hb M.mb_pos.ne
  exact (disjoint_cells_iff hpos hb M.mb_pos.ne).mp hd (neighbours_first_chunks h2)

/-- The deployment of the master's entry point: three minions of 4 MiB. -/
def threeMinions : MinionManager :=
  ⟨4 * 1024 * 1024, 3, by decide, by decide, by decide, by decide⟩

/-- A drive of three minions with four bytes each. -/
def smallDrive : MinionManager := ⟨4, 3, by decide, by decide, by decide, by decide⟩

theorem mirror_placement_threeMinions :
    threeMinions.numMinions * threeMinions.mbMinion < sizeMod ∧ ¬ threeMinions.PlacementSound :=
  ⟨by decide, (mirror_placement threeMinions (by decide)).1⟩

/-- Drive byte 0 is mirrored into the cell of the first byte of the second chunk. -/
theorem first_chunks_share_cell :
    0 < threeMinions.getDriveSize ∧ threeMinions.mbMinion < threeMinions.getDriveSize ∧
      threeMinions.cell .backup 0 = threeMinions.cell .primary threeMinions.mbMinion ∧
      ¬ Disjoint (threeMinions.cells 0) (threeMinions.cells threeMinions.mbMinion) := by
  decide

end MinionManager

end IoTDrive.Stripe
