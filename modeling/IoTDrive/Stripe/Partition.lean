import IoTDrive.Stripe.Splitter
import Mathlib.Data.Finset.Card

/-! The splitter cuts a request into its parts in the chunks that it meets: one segment for
each chunk, in order, with the lengths of the earlier ones as its place in the buffer. -/

namespace IoTDrive.Stripe

/-- The lengths of the segments, added up. -/
def totalLength : List StripeSegment → ℕ
  | [] => 0
  | s :: segments => s.length + totalLength segments

theorem totalLength_cons (s : StripeSegment) (segments : List StripeSegment) :
    totalLength (s :: segments) = s.length + totalLength segments := rfl

/-- The chunks that hold a byte of `[offset, offset + length)`. -/
def chunksMet (offset length chunkSize : ℕ) : Finset ℕ :=
  (Finset.range length).image fun k => (offset + k) / chunkSize

variable {chunkSize numMinions offset length : ℕ} {hc : 0 < chunkSize}

/-! ### Lengths -/

theorem splitLoop_totalLength (numMinions : ℕ) (hc : 0 < chunkSize) (offset : ℕ) :
    ∀ (rem buf : ℕ), offset + buf + rem < sizeMod →
      totalLength (splitLoop chunkSize numMinions hc rem (offset + buf) buf) = rem := by
  intro rem
  induction rem using Nat.strong_induction_on with
  | _ rem ih =>
    intro buf hw
    rcases Nat.eq_zero_or_pos rem with rfl | hr
    · rw [splitLoop_zero]
      rfl
    · have hp := segLen_pos hc hr (offset + buf)
      have hl := segLen_le chunkSize rem (offset + buf)
      rw [splitLoop_succ numMinions hc hr hw, totalLength_cons, ih _ (by omega) _ (by omega)]
      simp only [segAt]
      omega

/-- A segment goes to the buffer behind the segments before it. -/
theorem splitLoop_bufferOffset (numMinions : ℕ) (hc : 0 < chunkSize) (offset : ℕ) :
    ∀ (i rem buf : ℕ) (s : StripeSegment), offset + buf + rem < sizeMod →
      (splitLoop chunkSize numMinions hc rem (offset + buf) buf)[i]? = some s →
      s.bufferOffset =
        buf + totalLength ((splitLoop chunkSize numMinions hc rem (offset + buf) buf).take i) := by
  intro i
  induction i with
  | zero =>
    intro rem buf s hw hs
    rcases Nat.eq_zero_or_pos rem with rfl | hr
    · simp [splitLoop_zero] at hs
    · rw [splitLoop_succ numMinions hc hr hw, List.getElem?_cons_zero, Option.some.injEq] at hs
      simp [← hs, segAt, totalLength]
  | succ i ih =>
    intro rem buf s hw hs
    rcases Nat.eq_zero_or_pos rem with rfl | hr
    · simp [splitLoop_zero] at hs
    · have hl := segLen_le chunkSize rem (offset + buf)
      rw [splitLoop_succ numMinions hc hr hw] at hs ⊢
      rw [List.getElem?_cons_succ] at hs
      rw [ih _ _ s (by omega) hs, List.take_succ_cons, totalLength_cons]
      simp only [segAt]
      rw [Nat.add_assoc buf]

theorem split_totalLength (hw : offset + length < sizeMod) :
    totalLength (split offset length chunkSize numMinions hc) = length :=
  splitLoop_totalLength numMinions hc offset length 0 (by omega)

theorem split_bufferOffset (hw : offset + length < sizeMod) {i : ℕ} {s : StripeSegment}
    (hs : (split offset length chunkSize numMinions hc)[i]? = some s) :
    s.bufferOffset = totalLength ((split offset length chunkSize numMinions hc).take i) := by
  have h := splitLoop_bufferOffset numMinions hc offset i length 0 s (by omega)
    (by simpa [split] using hs)
  simpa [split] using h

/-! ### Chunks -/

/-- The address of a segment on the drive. -/
theorem SegmentOf.address {s : StripeSegment} (h : SegmentOf offset length chunkSize numMinions s) :
    s.primaryMinionIndex * chunkSize + s.localOffset = offset + s.bufferOffset := by
  rw [h.primary, h.localOffset, Nat.mul_comm]
  exact Nat.div_add_mod _ _

/-- The index of the mirror does not wrap before it is reduced. -/
theorem SegmentOf.backup_eq {s : StripeSegment} (h : SegmentOf offset length chunkSize numMinions s)
    (hw : offset + length < sizeMod) :
    s.backupMinionIndex = (s.primaryMinionIndex + 1) % numMinions := by
  have hlt : s.primaryMinionIndex + 1 < sizeMod := by
    have hdiv := Nat.div_le_self (offset + s.bufferOffset) chunkSize
    have hwithin := h.within
    have hpos := h.length_pos
    rw [h.primary]
    omega
  rw [h.backup]
  unfold getBackupIndex
  rw [Nat.mod_eq_of_lt hlt]

/-- Every byte of the request lies in a segment. -/
theorem split_covers (numMinions : ℕ) (hc : 0 < chunkSize) (hw : offset + length < sizeMod)
    {k : ℕ} (hk : k < length) :
    ∃ s ∈ split offset length chunkSize numMinions hc,
      s.bufferOffset ≤ k ∧ k < s.bufferOffset + s.length := by
  have hranges : (split offset length chunkSize numMinions hc).flatMap
      (fun s => List.range' s.bufferOffset s.length) = List.range length := split_ranges hw
  have hmem : k ∈ List.range length := List.mem_range.mpr hk
  rw [← hranges] at hmem
  obtain ⟨s, hs, hks⟩ := List.mem_flatMap.mp hmem
  exact ⟨s, hs, List.mem_range'_1.mp hks⟩

/-- Different segments lie in different chunks. -/
theorem split_chunks_nodup (hw : offset + length < sizeMod) :
    ((split offset length chunkSize numMinions hc).map StripeSegment.primaryMinionIndex).Nodup := by
  have heq : (split offset length chunkSize numMinions hc).map StripeSegment.primaryMinionIndex =
      List.range' (offset / chunkSize) (split offset length chunkSize numMinions hc).length := by
    apply List.ext_getElem?
    intro i
    rw [List.getElem?_map]
    cases hs : (split offset length chunkSize numMinions hc)[i]? with
    | none =>
      have hle := List.getElem?_eq_none_iff.mp hs
      rw [List.getElem?_eq_none (by simpa using hle)]
      rfl
    | some s =>
      obtain ⟨hi, -⟩ := List.getElem?_eq_some_iff.mp hs
      rw [List.getElem?_range' hi, Option.map_some, split_consecutive hw hs, Nat.one_mul]
  rw [heq]
  exact List.nodup_range'

theorem mem_chunksMet (hw : offset + length < sizeMod) {c : ℕ} :
    c ∈ chunksMet offset length chunkSize ↔
      c ∈ (split offset length chunkSize numMinions hc).map StripeSegment.primaryMinionIndex := by
  unfold chunksMet
  rw [Finset.mem_image, List.mem_map]
  constructor
  · rintro ⟨k, hk, rfl⟩
    obtain ⟨s, hs, hle, hlt⟩ := split_covers numMinions hc hw (Finset.mem_range.mp hk)
    exact ⟨s, hs, ((split_mem hw hs).locate hle hlt).1.symm⟩
  · rintro ⟨s, hs, rfl⟩
    have hseg := split_mem hw hs
    refine ⟨s.bufferOffset, Finset.mem_range.mpr ?_, hseg.primary.symm⟩
    have hwithin := hseg.within
    have hpos := hseg.length_pos
    omega

/-- There are as many segments as chunks met. -/
theorem split_length (hw : offset + length < sizeMod) :
    (split offset length chunkSize numMinions hc).length =
      (chunksMet offset length chunkSize).card := by
  have hset : chunksMet offset length chunkSize =
      ((split offset length chunkSize numMinions hc).map
        StripeSegment.primaryMinionIndex).toFinset := by
    ext c
    rw [List.mem_toFinset]
    exact mem_chunksMet hw
  rw [hset, List.toFinset_card_of_nodup (split_chunks_nodup hw), List.length_map]

/-- `Split` is the partition of a request by chunks, for every request whose end does not
wrap. -/
theorem split_partition (offset length chunkSize numMinions : ℕ) (hc : 0 < chunkSize)
    (hw : offset + length < sizeMod) :
    let segments := split offset length chunkSize numMinions hc
    (∀ (i : ℕ) (s : StripeSegment), segments[i]? = some s →
      0 < s.length ∧ s.localOffset + s.length ≤ chunkSize ∧
        s.bufferOffset = totalLength (segments.take i) ∧
        s.primaryMinionIndex * chunkSize + s.localOffset = offset + s.bufferOffset ∧
        s.primaryMinionIndex = offset / chunkSize + i ∧
        s.backupMinionIndex = (s.primaryMinionIndex + 1) % numMinions) ∧
      totalLength segments = length ∧
      (segments.map StripeSegment.primaryMinionIndex).Nodup ∧
      segments.length = (chunksMet offset length chunkSize).card := by
  intro segments
  refine ⟨?_, split_totalLength hw, split_chunks_nodup hw, split_length hw⟩
  intro i s hs
  have hseg := split_mem hw (List.mem_of_getElem? hs)
  exact ⟨hseg.length_pos, hseg.fits, split_bufferOffset hw hs, hseg.address,
    split_consecutive hw hs, hseg.backup_eq hw⟩

/-- Ten bytes from 6 on, in chunks of four: half a chunk and two chunks. -/
theorem split_partition_ten :
    totalLength (split 6 10 4 3 (Nat.succ_pos 3)) = 10 ∧
      (split 6 10 4 3 (Nat.succ_pos 3)).length = (chunksMet 6 10 4).card ∧
      (chunksMet 6 10 4).card = 3 := by
  have h := split_partition 6 10 4 3 (Nat.succ_pos 3) (by decide)
  exact ⟨h.2.1, h.2.2.2, by decide⟩

end IoTDrive.Stripe
