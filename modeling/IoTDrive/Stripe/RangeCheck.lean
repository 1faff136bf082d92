import IoTDrive.Stripe.Placement

/-! What `ValidateRange` lets through. Both sides of its comparison are reduced modulo
`2 ^ 64`, so it is the comparison of the request's end with the size of the drive where
both have the same quotient. A request that it lets through wrongly has a
segment on a minion that does not exist. -/

namespace IoTDrive.Stripe

/-- A segment of the loop, whether or not the request wraps: it starts at some 64-bit address
and stays in the chunk of that address. -/
theorem splitLoop_wrapping {chunkSize numMinions : ℕ} (hc : 0 < chunkSize) :
    ∀ (rem cur buf : ℕ), cur < sizeMod →
      ∀ s ∈ splitLoop chunkSize numMinions hc rem cur buf, ∃ a, a < sizeMod ∧
        s.primaryMinionIndex = a / chunkSize ∧ s.localOffset + s.length ≤ chunkSize ∧
        s.backupMinionIndex = getBackupIndex s.primaryMinionIndex numMinions := by
  intro rem
  induction rem using Nat.strong_induction_on with
  | _ rem ih =>
    intro cur buf hcur s hs
    rw [splitLoop] at hs
    split_ifs at hs with hr
    · cases hs
    · have hm := Nat.mod_lt cur hc
      rcases List.mem_cons.mp hs with rfl | hs
      · refine ⟨cur, hcur, rfl, ?_, rfl⟩
        simp only
        omega
      · exact ih _ (by omega) _ _ (Nat.mod_lt _ (by decide)) s hs

namespace MinionManager

variable (M : MinionManager)

/-- The check protects the fan-out of a request: what it accepts has its segments on the
minions there are, within their chunks, and it rejects what ends beyond the drive, both
computed without wrapping. -/
def RangeProtected (offset length : ℕ) : Prop :=
  (M.validateRange offset length = .ok () → ∀ s ∈ M.segments offset length,
    s.primaryMinionIndex < M.numMinions ∧ s.backupMinionIndex < M.numMinions ∧
      s.primaryMinionIndex * M.mbMinion + s.localOffset + s.length ≤
        M.numMinions * M.mbMinion) ∧
    ((∃ e, M.validateRange offset length = .error e) ↔
      M.numMinions * M.mbMinion < offset + length)

/-- The end of the request and the size of the drive wrap equally often; or the one that
wraps less often still has the remainder that compares as the whole does. -/
def WrapsAlike (offset length : ℕ) : Prop :=
  (offset + length) / sizeMod = M.numMinions * M.mbMinion / sizeMod ∨
    M.numMinions * M.mbMinion / sizeMod < (offset + length) / sizeMod ∧
      M.numMinions * M.mbMinion % sizeMod < (offset + length) % sizeMod ∨
    (offset + length) / sizeMod < M.numMinions * M.mbMinion / sizeMod ∧
      (offset + length) % sizeMod ≤ M.numMinions * M.mbMinion % sizeMod

instance (offset length : ℕ) : Decidable (M.WrapsAlike offset length) :=
  inferInstanceAs (Decidable (_ ∨ _ ∨ _))

variable {M} {offset length : ℕ}

theorem validateRange_ok_iff :
    M.validateRange offset length = .ok () ↔ (offset + length) % sizeMod ≤ M.getDriveSize := by
  unfold validateRange
  split_ifs with h
  · simpa using h
  · simpa using h

theorem validateRange_error_iff :
    (∃ e, M.validateRange offset length = .error e) ↔
      M.getDriveSize < (offset + length) % sizeMod := by
  unfold validateRange
  split_ifs with h
  · simpa using h
  · simpa using h

/-- Two numbers compare by their quotients, and by their remainders where these agree. -/
theorem remainder_lt_iff_of_quotient (a b m : ℕ) :
    (a % m < b % m ↔ a < b) ↔
      b / m = a / m ∨ a / m < b / m ∧ a % m < b % m ∨ b / m < a / m ∧ b % m ≤ a % m := by
  have ha := Nat.div_add_mod a m
  have hb := Nat.div_add_mod b m
  rcases Nat.lt_trichotomy (a / m) (b / m) with hlt | heq | hgt
  · have hab : a < b := Nat.lt_of_div_lt_div hlt
    omega
  · rw [heq] at ha
    omega
  · have hba : b < a := Nat.lt_of_div_lt_div hgt
    omega

/-- Where the drive fills the address space, no segment can leave it. -/
theorem segments_of_large (hlarge : sizeMod ≤ M.numMinions * M.mbMinion)
    (ho : offset < sizeMod) {s : StripeSegment} (hs : s ∈ M.segments offset length) :
    s.primaryMinionIndex < M.numMinions ∧ s.localOffset + s.length ≤ M.mbMinion ∧
      s.backupMinionIndex < M.numMinions := by
  obtain ⟨a, ha, hp, hfits, hb⟩ := splitLoop_wrapping M.mb_pos length offset 0 ho s hs
  refine ⟨?_, hfits, ?_⟩
  · rw [hp, Nat.div_lt_iff_lt_mul M.mb_pos]
    omega
  · rw [hb]
    exact getBackupIndex_lt _

/-- A segment inside its chunk ends on the drive. -/
theorem segment_end_le {s : StripeSegment} (hp : s.primaryMinionIndex < M.numMinions)
    (hfits : s.localOffset + s.length ≤ M.mbMinion) :
    s.primaryMinionIndex * M.mbMinion + s.localOffset + s.length ≤
      M.numMinions * M.mbMinion := by
  have hmul := Nat.mul_le_mul_right M.mbMinion hp
  rw [Nat.add_one_mul] at hmul
  omega

theorem segments_protected (ho : offset < sizeMod)
    (hle : offset + length ≤ M.numMinions * M.mbMinion) {s : StripeSegment}
    (hs : s ∈ M.segments offset length) :
    s.primaryMinionIndex < M.numMinions ∧ s.backupMinionIndex < M.numMinions ∧
      s.primaryMinionIndex * M.mbMinion + s.localOffset + s.length ≤
        M.numMinions * M.mbMinion := by
  rcases Nat.lt_or_ge (M.numMinions * M.mbMinion) sizeMod with hsmall | hlarge
  · have hin : M.InRange offset length := by
      unfold InRange
      rw [driveSize_eq hsmall]
      exact hle
    obtain ⟨hseg, hp, hb⟩ := segments_mem hin hs
    exact ⟨hp, hb, segment_end_le hp hseg.fits⟩
  · obtain ⟨hp, hfits, hb⟩ := segments_of_large hlarge ho hs
    exact ⟨hp, hb, segment_end_le hp hfits⟩

/-- The check protects the fan-out of a request exactly if the two sides of its comparison wrap
alike. -/
theorem rangeProtected_iff (M : MinionManager) (offset length : ℕ) (ho : offset < sizeMod) :
    M.RangeProtected offset length ↔ M.WrapsAlike offset length := by
  have hcompare := remainder_lt_iff_of_quotient (M.numMinions * M.mbMinion) (offset + length) sizeMod
  unfold RangeProtected WrapsAlike
  rw [validateRange_error_iff, getDriveSize, hcompare]
  constructor
  · rintro ⟨-, h⟩
    exact h
  · intro h
    refine ⟨?_, h⟩
    intro hok s hs
    rw [validateRange_ok_iff, getDriveSize] at hok
    have hle := hcompare.mpr h
    exact segments_protected ho (by omega) hs

theorem rangeProtected_smallDrive : smallDrive.RangeProtected 3 4 ∧ smallDrive.WrapsAlike 3 4 :=
  ⟨(rangeProtected_iff smallDrive 3 4 (by decide)).mpr (by decide), by decide⟩

/-- Two bytes from the last 64-bit address on pass the check of a drive of twelve bytes, and
the first goes to a minion far beyond the third and last. -/
theorem smallDrive_unprotected :
    smallDrive.validateRange (2 ^ 64 - 1) 2 = .ok () ∧
      ¬ smallDrive.RangeProtected (2 ^ 64 - 1) 2 := by
  have hok : smallDrive.validateRange (2 ^ 64 - 1) 2 = .ok () := by decide
  refine ⟨hok, ?_⟩
  rintro ⟨hsafe, -⟩
  have hmem : ⟨3, 1, 0, 2 ^ 62 - 1, getBackupIndex (2 ^ 62 - 1) 3⟩ ∈
      smallDrive.segments (2 ^ 64 - 1) 2 := by
    unfold segments split
    rw [splitLoop]
    simp [smallDrive, getPrimaryIndex]
  have hlt := (hsafe hok _ hmem).1
  simp [smallDrive] at hlt

end MinionManager

end IoTDrive.Stripe
