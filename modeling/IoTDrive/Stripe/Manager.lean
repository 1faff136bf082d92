import IoTDrive.Stripe.Splitter

/-! The geometry that `MinionManager::Init` fixes: the bytes per minion, which is the
chunk size, and the number of minions. `Init` rejects an empty list of minions and
a chunk size of zero; a `MinionManager` here carries what it accepted. The drive
size is the product of the two in 64-bit arithmetic, and `validateRange` compares
it with the wrapped end of a request. -/

namespace IoTDrive.Stripe

/-- A minion manager after `Init`. Only the geometry matters to the striping; the
proxies, the reactor and the worker thread belong to the system model. -/
structure MinionManager where
  mbMinion : ℕ
  numMinions : ℕ
  mb_pos : 0 < mbMinion
  mb_lt : mbMinion < sizeMod
  minions_pos : 0 < numMinions
  minions_lt : numMinions < sizeMod

namespace MinionManager

/-- `MinionManager::Init`, with the two arguments as the `size_t` values they are. -/
def init (mbMinion numMinions : ℕ) (hmb : mbMinion < sizeMod) (hn : numMinions < sizeMod) :
    Except String MinionManager :=
  if h0 : numMinions = 0 then .error "MinionManager: minions list is empty"
  else if h1 : mbMinion = 0 then .error "MinionManager: chunk size must be > 0"
  else .ok ⟨mbMinion, numMinions, Nat.pos_of_ne_zero h1, hmb, Nat.pos_of_ne_zero h0, hn⟩

variable (M : MinionManager)

def getDriveSize : ℕ := M.numMinions * M.mbMinion % sizeMod

/-- `ValidateRange`: the end of the request is computed modulo `2 ^ 64`. -/
def validateRange (offset length : ℕ) : Except String Unit :=
  if (offset + length) % sizeMod > M.getDriveSize then
    .error "MinionManager: I/O beyond drive size"
  else .ok ()

/-- The segments of a request. -/
def segments (offset length : ℕ) : List StripeSegment :=
  split offset length M.mbMinion M.numMinions M.mb_pos

/-- A request that lies on the drive, its end computed without wrapping. -/
def InRange (offset length : ℕ) : Prop := offset + length ≤ M.getDriveSize

instance (offset length : ℕ) : Decidable (M.InRange offset length) :=
  inferInstanceAs (Decidable (_ ≤ _))

/-- A non-empty request that lies inside one chunk. -/
def OneChunk (offset length : ℕ) : Prop :=
  0 < length ∧ offset % M.mbMinion + length ≤ M.mbMinion

instance (offset length : ℕ) : Decidable (M.OneChunk offset length) :=
  inferInstanceAs (Decidable (_ ∧ _))

variable {M}

theorem driveSize_le : M.getDriveSize ≤ M.numMinions * M.mbMinion := Nat.mod_le _ _

theorem driveSize_lt : M.getDriveSize < sizeMod := Nat.mod_lt _ (by decide)

theorem driveSize_eq (h : M.numMinions * M.mbMinion < sizeMod) :
    M.getDriveSize = M.numMinions * M.mbMinion := Nat.mod_eq_of_lt h

theorem InRange.lt_sizeMod {offset length : ℕ} (h : M.InRange offset length) :
    offset + length < sizeMod := lt_of_le_of_lt h driveSize_lt

/-- Nothing in range is refused. -/
theorem InRange.validateRange {offset length : ℕ} (h : M.InRange offset length) :
    M.validateRange offset length = .ok () := by
  have hw := h.lt_sizeMod
  simp only [InRange] at h
  rw [MinionManager.validateRange, Nat.mod_eq_of_lt hw, if_neg (by omega)]

theorem div_lt_numMinions {a : ℕ} (h : a < M.getDriveSize) : a / M.mbMinion < M.numMinions := by
  rw [Nat.div_lt_iff_lt_mul M.mb_pos]
  exact lt_of_lt_of_le h driveSize_le

theorem getBackupIndex_lt (p : ℕ) : getBackupIndex p M.numMinions < M.numMinions :=
  Nat.mod_lt _ M.minions_pos

theorem getBackupIndex_eq {p : ℕ} (h : p < M.numMinions) :
    getBackupIndex p M.numMinions = (p + 1) % M.numMinions := by
  have := M.minions_lt
  rw [getBackupIndex, Nat.mod_eq_of_lt (by omega : p + 1 < sizeMod)]

/-- The last minion's mirror is the first; every other one's is the next. -/
theorem getBackupIndex_cases {p : ℕ} (h : p < M.numMinions) :
    getBackupIndex p M.numMinions = p + 1 ∧ p + 1 < M.numMinions ∨
      getBackupIndex p M.numMinions = 0 ∧ p + 1 = M.numMinions := by
  rw [getBackupIndex_eq h]
  rcases Nat.lt_or_ge (p + 1) M.numMinions with hlt | hge
  · exact .inl ⟨Nat.mod_eq_of_lt hlt, hlt⟩
  · have he : p + 1 = M.numMinions := by omega
    exact .inr ⟨by rw [he, Nat.mod_self], he⟩

theorem getBackupIndex_injective {p q : ℕ} (hp : p < M.numMinions) (hq : q < M.numMinions)
    (h : getBackupIndex p M.numMinions = getBackupIndex q M.numMinions) : p = q := by
  rcases getBackupIndex_cases hp with ⟨e1, h1⟩ | ⟨e1, h1⟩ <;>
    rcases getBackupIndex_cases hq with ⟨e2, h2⟩ | ⟨e2, h2⟩ <;> omega

/-- With two or more minions the mirror is another minion. -/
theorem getBackupIndex_ne_iff {p : ℕ} (h : p < M.numMinions) :
    p ≠ getBackupIndex p M.numMinions ↔ 2 ≤ M.numMinions := by
  rcases getBackupIndex_cases h with ⟨e, h1⟩ | ⟨e, h1⟩ <;> omega

/-- The laws of one segment of a request on the drive. -/
theorem segments_mem {offset length : ℕ} (h : M.InRange offset length) {s : StripeSegment}
    (hs : s ∈ M.segments offset length) :
    SegmentOf offset length M.mbMinion M.numMinions s ∧ s.primaryMinionIndex < M.numMinions ∧
      s.backupMinionIndex < M.numMinions := by
  have hseg := split_mem h.lt_sizeMod hs
  refine ⟨hseg, ?_, by rw [hseg.backup]; exact getBackupIndex_lt _⟩
  rw [hseg.primary]
  apply div_lt_numMinions
  have h1 := hseg.within
  have h2 := hseg.length_pos
  simp only [InRange] at h
  omega

theorem segments_ranges {offset length : ℕ} (h : M.InRange offset length) :
    (M.segments offset length).flatMap (fun s => List.range' s.bufferOffset s.length) =
      List.range length := split_ranges h.lt_sizeMod

theorem segments_consecutive {offset length i : ℕ} (h : M.InRange offset length)
    {s : StripeSegment} (hs : (M.segments offset length)[i]? = some s) :
    s.primaryMinionIndex = offset / M.mbMinion + i := split_consecutive h.lt_sizeMod hs

theorem segments_ne_nil {offset length : ℕ} (h : 0 < length) : M.segments offset length ≠ [] := by
  rw [MinionManager.segments, split, splitLoop, dif_neg h.ne']
  exact List.cons_ne_nil _ _

theorem OneChunk.segments {offset length : ℕ} (h : M.OneChunk offset length)
    (hr : M.InRange offset length) :
    M.segments offset length =
      [⟨offset % M.mbMinion, length, 0, offset / M.mbMinion,
        getBackupIndex (offset / M.mbMinion) M.numMinions⟩] :=
  split_single h.1 h.2 hr.lt_sizeMod

end MinionManager

end IoTDrive.Stripe
