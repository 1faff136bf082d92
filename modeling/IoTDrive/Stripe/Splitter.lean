import Mathlib.Data.Nat.Notation
import Mathlib.Data.List.Basic
import Mathlib.Tactic.Ring
import Mathlib.Tactic.SplitIfs

/-! The stripe splitter. A request `[offset, offset + length)` of the drive is cut at
chunk boundaries; chunk `c` lives on minion `c` and is mirrored on minion
`c + 1` modulo the number of minions. All arithmetic is that of a 64-bit
`size_t`. The laws below hold for requests whose end does not wrap: every
segment stays inside one chunk, the segments cover the request exactly once and
in order, and consecutive segments lie in consecutive chunks. -/

namespace IoTDrive.Stripe

/-- The number of values of a `size_t`. -/
abbrev sizeMod : ℕ := 2 ^ 64

structure StripeSegment where
  localOffset : ℕ
  length : ℕ
  bufferOffset : ℕ
  primaryMinionIndex : ℕ
  backupMinionIndex : ℕ
  deriving DecidableEq, Repr

def getPrimaryIndex (offset chunkSize : ℕ) : ℕ := offset / chunkSize

def getBackupIndex (primaryIndex numMinions : ℕ) : ℕ := (primaryIndex + 1) % sizeMod % numMinions

/-- The loop of `split`. A chunk size of zero would divide by zero in the source;
`MinionManager::Init` excludes it, and here the hypothesis does. -/
def splitLoop (chunkSize numMinions : ℕ) (hc : 0 < chunkSize)
    (remaining currentOffset bufferOffset : ℕ) : List StripeSegment :=
  if _h : remaining = 0 then [] else
    let primaryIndex := getPrimaryIndex currentOffset chunkSize
    let localOffset := currentOffset % chunkSize
    let spaceInChunk := chunkSize - localOffset
    let segLen := min remaining spaceInChunk
    { localOffset := localOffset
      length := segLen
      bufferOffset := bufferOffset
      primaryMinionIndex := primaryIndex
      backupMinionIndex := getBackupIndex primaryIndex numMinions } ::
      splitLoop chunkSize numMinions hc (remaining - segLen) ((currentOffset + segLen) % sizeMod)
        ((bufferOffset + segLen) % sizeMod)
termination_by remaining
decreasing_by
  have := Nat.mod_lt currentOffset hc
  omega

def split (offset length chunkSize numMinions : ℕ) (hc : 0 < chunkSize) : List StripeSegment :=
  splitLoop chunkSize numMinions hc length offset 0

variable {chunkSize numMinions : ℕ} {hc : 0 < chunkSize}

/-- What the source's loop establishes of one segment of a request that starts at
drive address `offset` and is `length` bytes long. -/
structure SegmentOf (offset length chunkSize numMinions : ℕ) (s : StripeSegment) : Prop where
  length_pos : 0 < s.length
  fits : s.localOffset + s.length ≤ chunkSize
  within : s.bufferOffset + s.length ≤ length
  primary : s.primaryMinionIndex = (offset + s.bufferOffset) / chunkSize
  localOffset : s.localOffset = (offset + s.bufferOffset) % chunkSize
  backup : s.backupMinionIndex = getBackupIndex s.primaryMinionIndex numMinions

/-! ### One iteration -/

theorem splitLoop_zero (cur buf : ℕ) : splitLoop chunkSize numMinions hc 0 cur buf = [] := by
  rw [splitLoop, dif_pos rfl]

/-- The length of the segment cut at `cur` when `rem` bytes remain. -/
def segLen (chunkSize rem cur : ℕ) : ℕ := min rem (chunkSize - cur % chunkSize)

/-- The segment cut at `cur`. -/
def segAt (chunkSize numMinions rem cur buf : ℕ) : StripeSegment where
  localOffset := cur % chunkSize
  length := segLen chunkSize rem cur
  bufferOffset := buf
  primaryMinionIndex := cur / chunkSize
  backupMinionIndex := getBackupIndex (cur / chunkSize) numMinions

theorem segLen_pos (hc : 0 < chunkSize) {rem : ℕ} (hr : 0 < rem) (cur : ℕ) :
    0 < segLen chunkSize rem cur := by
  have := Nat.mod_lt cur hc
  simp only [segLen]
  omega

theorem segLen_le (chunkSize rem cur : ℕ) : segLen chunkSize rem cur ≤ rem := Nat.min_le_left _ _

/-- One iteration. The place in the buffer never wraps; the address may. -/
theorem splitLoop_step (numMinions : ℕ) (hc : 0 < chunkSize) {rem buf : ℕ} (cur : ℕ) (hr : 0 < rem)
    (hb : buf + rem < sizeMod) :
    splitLoop chunkSize numMinions hc rem cur buf =
      segAt chunkSize numMinions rem cur buf ::
        splitLoop chunkSize numMinions hc (rem - segLen chunkSize rem cur)
          ((cur + segLen chunkSize rem cur) % sizeMod) (buf + segLen chunkSize rem cur) := by
  have hl := segLen_le chunkSize rem cur
  have hbuf : (buf + segLen chunkSize rem cur) % sizeMod = buf + segLen chunkSize rem cur :=
    Nat.mod_eq_of_lt (by omega)
  rw [splitLoop, dif_neg hr.ne']
  simp only [segLen] at hbuf
  simp only [segAt, segLen, getPrimaryIndex, hbuf]

/-- One iteration, away from the wrap of `size_t`. -/
theorem splitLoop_succ (numMinions : ℕ) (hc : 0 < chunkSize) {rem offset buf : ℕ} (hr : 0 < rem) (hw : offset + buf + rem < sizeMod) :
    splitLoop chunkSize numMinions hc rem (offset + buf) buf =
      segAt chunkSize numMinions rem (offset + buf) buf ::
        splitLoop chunkSize numMinions hc (rem - segLen chunkSize rem (offset + buf))
          (offset + (buf + segLen chunkSize rem (offset + buf)))
          (buf + segLen chunkSize rem (offset + buf)) := by
  have hl := segLen_le chunkSize rem (offset + buf)
  have hcur : (offset + buf + segLen chunkSize rem (offset + buf)) % sizeMod =
      offset + (buf + segLen chunkSize rem (offset + buf)) := by
    rw [Nat.mod_eq_of_lt (by omega), Nat.add_assoc]
  rw [splitLoop_step numMinions hc _ hr (by omega), hcur]

/-- Where the segment does not end the request, the next one starts a chunk. -/
theorem next_chunk (hc : 0 < chunkSize) {rem cur : ℕ} (h : segLen chunkSize rem cur < rem) :
    cur + segLen chunkSize rem cur = (cur / chunkSize + 1) * chunkSize := by
  have hm := Nat.mod_lt cur hc
  have hd := Nat.div_add_mod cur chunkSize
  have hs : segLen chunkSize rem cur = chunkSize - cur % chunkSize := by
    simp only [segLen] at h ⊢
    omega
  rw [hs, add_mul, one_mul, mul_comm (cur / chunkSize)]
  omega

/-! ### The whole loop -/

theorem splitLoop_mem (hc : 0 < chunkSize) {offset total : ℕ} :
    ∀ (rem buf : ℕ), buf + rem = total → offset + total < sizeMod →
      ∀ s ∈ splitLoop chunkSize numMinions hc rem (offset + buf) buf,
        SegmentOf offset total chunkSize numMinions s := by
  intro rem
  induction rem using Nat.strong_induction_on with
  | _ rem ih =>
    intro buf hb hw s hs
    rcases Nat.eq_zero_or_pos rem with rfl | hr
    · simp [splitLoop_zero] at hs
    · have hp := segLen_pos hc hr (offset + buf)
      have hl := segLen_le chunkSize rem (offset + buf)
      rw [splitLoop_succ numMinions hc hr (by omega)] at hs
      rcases List.mem_cons.mp hs with rfl | hs
      · have hm := Nat.mod_lt (offset + buf) hc
        refine ⟨hp, ?_, ?_, rfl, rfl, rfl⟩
        · simp only [segAt, segLen]; omega
        · simp only [segAt]; omega
      · exact ih _ (by omega) _ (by omega) hw s hs

/-- The buffer ranges of the segments, laid end to end, are the whole request, even one that
wraps. -/
theorem splitLoop_ranges (numMinions : ℕ) (hc : 0 < chunkSize) :
    ∀ (rem cur buf : ℕ), buf + rem < sizeMod →
      (splitLoop chunkSize numMinions hc rem cur buf).flatMap
        (fun s => List.range' s.bufferOffset s.length) = List.range' buf rem := by
  intro rem
  induction rem using Nat.strong_induction_on with
  | _ rem ih =>
    intro cur buf hb
    rcases Nat.eq_zero_or_pos rem with rfl | hr
    · simp [splitLoop_zero]
    · have hp := segLen_pos hc hr cur
      have hl := segLen_le chunkSize rem cur
      rw [splitLoop_step numMinions hc cur hr hb, List.flatMap_cons,
        ih _ (by omega) _ _ (by omega)]
      simp only [segAt]
      rw [List.range'_append_1]
      congr 1
      omega

/-- A segment lies in the buffer, even of a request that wraps. -/
theorem splitLoop_within (numMinions : ℕ) (hc : 0 < chunkSize) :
    ∀ (rem cur buf : ℕ), buf + rem < sizeMod →
      ∀ s ∈ splitLoop chunkSize numMinions hc rem cur buf,
        0 < s.length ∧ s.bufferOffset + s.length ≤ buf + rem := by
  intro rem
  induction rem using Nat.strong_induction_on with
  | _ rem ih =>
    intro cur buf hb s hs
    rcases Nat.eq_zero_or_pos rem with rfl | hr
    · simp [splitLoop_zero] at hs
    · have hp := segLen_pos hc hr cur
      have hl := segLen_le chunkSize rem cur
      rw [splitLoop_step numMinions hc cur hr hb] at hs
      rcases List.mem_cons.mp hs with rfl | hs
      · refine ⟨hp, ?_⟩
        simp only [segAt]
        omega
      · have h := ih _ (by omega) _ _ (by omega) s hs
        omega

/-- The `i`-th segment lies `i` chunks after the first. -/
theorem splitLoop_consecutive (numMinions : ℕ) (hc : 0 < chunkSize) (offset : ℕ) :
    ∀ (i rem buf : ℕ) (s : StripeSegment), offset + buf + rem < sizeMod →
      (splitLoop chunkSize numMinions hc rem (offset + buf) buf)[i]? = some s →
      s.primaryMinionIndex = (offset + buf) / chunkSize + i := by
  intro i
  induction i with
  | zero =>
    intro rem buf s hw hs
    rcases Nat.eq_zero_or_pos rem with rfl | hr
    · simp [splitLoop_zero] at hs
    · rw [splitLoop_succ numMinions hc hr hw] at hs
      simp only [List.getElem?_cons_zero, Option.some.injEq] at hs
      simp [← hs, segAt]
  | succ i ih =>
    intro rem buf s hw hs
    rcases Nat.eq_zero_or_pos rem with rfl | hr
    · simp [splitLoop_zero] at hs
    · have hl := segLen_le chunkSize rem (offset + buf)
      rw [splitLoop_succ numMinions hc hr hw, List.getElem?_cons_succ] at hs
      rcases Nat.lt_or_ge (segLen chunkSize rem (offset + buf)) rem with hlt | hge
      · have hi := ih _ _ s (by omega) hs
        have hn := next_chunk hc hlt
        rw [← Nat.add_assoc, hn, Nat.mul_div_cancel _ hc] at hi
        omega
      · -- the segment took everything: there is no next one
        rw [Nat.sub_eq_zero_of_le hge, splitLoop_zero] at hs
        simp at hs

/-! ### Split -/

variable {offset length : ℕ}

theorem split_mem (hw : offset + length < sizeMod) {s : StripeSegment}
    (hs : s ∈ split offset length chunkSize numMinions hc) :
    SegmentOf offset length chunkSize numMinions s :=
  splitLoop_mem hc length 0 (by omega) hw s (by simpa [split] using hs)

theorem split_within (hl : length < sizeMod) {s : StripeSegment}
    (hs : s ∈ split offset length chunkSize numMinions hc) :
    0 < s.length ∧ s.bufferOffset + s.length ≤ length := by
  have h := splitLoop_within numMinions hc length offset 0 (by omega) s hs
  rwa [Nat.zero_add] at h

theorem split_ranges_wrapping (hl : length < sizeMod) :
    (split offset length chunkSize numMinions hc).flatMap
      (fun s => List.range' s.bufferOffset s.length) = List.range length := by
  rw [List.range_eq_range']
  exact splitLoop_ranges numMinions hc length offset 0 (by omega)

theorem split_ranges (hw : offset + length < sizeMod) :
    (split offset length chunkSize numMinions hc).flatMap
      (fun s => List.range' s.bufferOffset s.length) = List.range length :=
  split_ranges_wrapping (by omega)

theorem split_consecutive (hw : offset + length < sizeMod) {i : ℕ} {s : StripeSegment}
    (hs : (split offset length chunkSize numMinions hc)[i]? = some s) :
    s.primaryMinionIndex = offset / chunkSize + i := by
  have h := splitLoop_consecutive numMinions hc offset i length 0 s (by omega)
    (by simpa [split] using hs)
  simpa using h

theorem split_nil : split offset 0 chunkSize numMinions hc = [] := splitLoop_zero _ _

/-- A request inside one chunk is one segment. -/
theorem split_single (hl : 0 < length) (hin : offset % chunkSize + length ≤ chunkSize)
    (hw : offset + length < sizeMod) :
    split offset length chunkSize numMinions hc =
      [⟨offset % chunkSize, length, 0, offset / chunkSize,
        getBackupIndex (offset / chunkSize) numMinions⟩] := by
  have hs : segLen chunkSize length offset = length := by simp only [segLen]; omega
  have h := splitLoop_succ numMinions hc hl (show offset + 0 + length < sizeMod by omega)
  simp only [Nat.add_zero, hs, Nat.sub_self, splitLoop_zero, segAt] at h
  exact h

/-- Byte `k` of a request, in the segment that holds it: its chunk and its place in
the chunk. -/
theorem SegmentOf.locate {s : StripeSegment} (h : SegmentOf offset length chunkSize numMinions s)
    {k : ℕ} (hk : s.bufferOffset ≤ k) (hk' : k < s.bufferOffset + s.length) :
    (offset + k) / chunkSize = s.primaryMinionIndex ∧
      (offset + k) % chunkSize = s.localOffset + (k - s.bufferOffset) := by
  obtain ⟨j, rfl⟩ := Nat.exists_eq_add_of_le hk
  have hj : s.localOffset + j < chunkSize := by have := h.fits; omega
  have hd := Nat.div_add_mod (offset + s.bufferOffset) chunkSize
  rw [← h.primary, ← h.localOffset] at hd
  have he : offset + (s.bufferOffset + j) =
      s.localOffset + j + chunkSize * s.primaryMinionIndex := by omega
  have hpos : 0 < chunkSize := by omega
  rw [he]
  constructor
  · rw [Nat.add_mul_div_left _ _ hpos, Nat.div_eq_of_lt hj, Nat.zero_add]
  · rw [Nat.add_mul_mod_self_left, Nat.mod_eq_of_lt hj]
    omega

end IoTDrive.Stripe
