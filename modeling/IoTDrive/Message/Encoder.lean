import IoTDrive.Message.RoundTrip

/-! Where an encoder writes and reads. The sender allocates `GetSize()` bytes, a 32-bit value,
and `ToBuffer` stores the header, the fields and as many payload bytes as the 64-bit
length says, one more in a write request. For a payload of exactly that length this stays
inside both allocations for read requests and write answers, for the answers to reads below
four gigabytes, and for no write request. -/

namespace IoTDrive.Message

open Lib

namespace AMessage

/-- `ToBuffer` of the four classes: the addresses it stores to and the payload indices that
`std::copy` reads. -/
def toBufferPen (m : AMessage) (buffer : ℕ) : Pen :=
  let pen := ((⟨buffer, [], []⟩ : Pen).put 4).put 4
  match m with
  | .readSend .. => ((pen.put 8).put 8).put 8
  | .writeSend _ _ length _ => (((pen.put 8).put 8).put 8).copy ((length.toNat + 1) % 2 ^ 64)
  | .readReceive _ _ length _ => (((pen.put 8).put 1).put 8).copy length.toNat
  | .writeReceive .. => (pen.put 8).put 1

/-- The encoder writes to the bytes allocated for it and reads payload bytes that exist. -/
def EncodesInside (m : AMessage) : Prop :=
  ∀ buffer, (∀ i ∈ (m.toBufferPen buffer).written, buffer ≤ i ∧ i < buffer + m.getSize) ∧
    ∀ i ∈ (m.toBufferPen buffer).copied, i < (m.getData.getD []).length

/-- The messages whose encoder does. In a write request that would take the length at which
`m_length + 1` wraps to zero. -/
def Encodable : AMessage → Prop
  | .readSend .. => True
  | .writeSend _ _ length _ => length.toNat + 1 = 2 ^ 64
  | .readReceive _ _ length _ => 25 + length.toNat < 2 ^ 32
  | .writeReceive .. => True

/-- The payload bytes copied. -/
def copyCount : AMessage → ℕ
  | .readSend .. => 0
  | .writeSend _ _ length _ => (length.toNat + 1) % 2 ^ 64
  | .readReceive _ _ length _ => length.toNat
  | .writeReceive .. => 0

/-- The bytes stored: the fields and the payload bytes. -/
def storeCount : AMessage → ℕ
  | .readSend .. => 32
  | .writeSend _ _ length _ => 32 + (length.toNat + 1) % 2 ^ 64
  | .readReceive _ _ length _ => 25 + length.toNat
  | .writeReceive .. => 17

variable {m : AMessage} {beyond : ℕ → UInt8} {bytes : List UInt8} {buffer : Cursor UInt8}

/-! ### The accesses -/

theorem toBufferPen_passed (m : AMessage) (buffer : ℕ) :
    (m.toBufferPen buffer).Passed buffer m.storeCount := by
  have hstart : (⟨buffer, [], []⟩ : Pen).Passed buffer 0 := Pen.passed_start
  have hheader := hstart.put 4 |>.put 4
  cases m with
  | readSend uid offset length => exact hheader.put 8 |>.put 8 |>.put 8
  | writeSend uid offset length data => exact (hheader.put 8 |>.put 8 |>.put 8).copy _
  | readReceive uid result length data => exact (hheader.put 8 |>.put 1 |>.put 8).copy _
  | writeReceive uid result => exact hheader.put 8 |>.put 1

theorem toBufferPen_copied (m : AMessage) (buffer : ℕ) :
    (m.toBufferPen buffer).copied = List.range m.copyCount := by
  cases m with
  | readSend uid offset length => rfl
  | writeSend uid offset length data => rfl
  | readReceive uid result length data => rfl
  | writeReceive uid result => rfl

theorem encodesInside_iff_counts (m : AMessage) :
    m.EncodesInside ↔ m.storeCount ≤ m.getSize ∧ m.copyCount ≤ (m.getData.getD []).length := by
  have hcopied : ∀ n, (∀ i ∈ List.range m.copyCount, i < n) ↔ m.copyCount ≤ n := by
    intro n
    constructor
    · intro h
      by_contra hlt
      exact Nat.lt_irrefl n (h n (List.mem_range.mpr (by omega)))
    · intro hle i hi
      exact Nat.lt_of_lt_of_le (List.mem_range.mp hi) hle
  unfold EncodesInside
  simp only [(toBufferPen_passed m _).written_lt_iff, toBufferPen_copied, hcopied, forall_const]

/-! ### The encoder has these accesses -/

theorem copyFrom_length {buf : Option (List UInt8)} {n : ℕ}
    (h : copyFrom buf beyond n = some bytes) : bytes.length = n := by
  cases buf with
  | none =>
    simp only [copyFrom] at h
    split_ifs at h with hn
    rw [← Option.some.inj h, hn]
    rfl
  | some b =>
    rw [← Option.some.inj h]
    exact memRead_length b beyond n

theorem toBuffer_length (h : m.toBuffer beyond = some bytes) : bytes.length = m.storeCount := by
  obtain ⟨b, hb, rfl⟩ := Option.map_eq_some_iff.mp h
  cases m with
  | readSend uid offset length =>
    rw [← Option.some.inj hb]
    simp [storeCount]
  | writeSend uid offset length data =>
    obtain ⟨copied, hcopied, rfl⟩ := Option.map_eq_some_iff.mp hb
    simp [storeCount, copyFrom_length hcopied]
    omega
  | readReceive uid result length data =>
    obtain ⟨copied, hcopied, rfl⟩ := Option.map_eq_some_iff.mp hb
    simp [storeCount, copyFrom_length hcopied]
    omega
  | writeReceive uid result =>
    rw [← Option.some.inj hb]
    simp [storeCount]

/-- A datagram holds the bytes stored, so their number fits the size word. -/
theorem storeCount_of_datagram {d : List UInt8} (h : m.datagram beyond = some d) :
    m.storeCount < 2 ^ 32 := by
  obtain ⟨bytes, hbytes, hd⟩ := Option.bind_eq_some_iff.mp h
  split_ifs at hd with hlen
  rw [← toBuffer_length hbytes, hlen]
  exact getSize_lt m

/-- A message that fills its allocation has a datagram. -/
theorem exists_datagram {b : List UInt8} (hb : m.body beyond = some b)
    (hsize : m.storeCount = m.getSize) : ∃ d, m.datagram beyond = some d := by
  have hbytes : m.toBuffer beyond =
      some (u32Bytes m.getSize ++ (u32Bytes m.getMessageType.code ++ b)) := by
    rw [toBuffer, hb, Option.map_some]
  exact ⟨_, Option.bind_eq_some_iff.mpr
    ⟨_, hbytes, if_pos ((toBuffer_length hbytes).trans hsize)⟩⟩

/-! ### Messages with their payload -/

theorem PayloadFits.counts_iff (h : m.PayloadFits) :
    m.storeCount ≤ m.getSize ∧ m.copyCount ≤ (m.getData.getD []).length ↔ m.Encodable := by
  cases m with
  | readSend uid offset length => simp [storeCount, copyCount, getSize, wireSize, Encodable]
  | writeSend uid offset length data =>
    obtain ⟨b, rfl, hb⟩ := h
    have hlt := length.toNat_lt
    simp only [storeCount, copyCount, getSize, wireSize, getData, Encodable, Option.getD_some, hb]
    constructor
    · -- the byte behind the payload is read, unless the count wraps
      rintro ⟨-, hcopy⟩
      by_contra hne
      rw [Nat.mod_eq_of_lt (by omega)] at hcopy
      omega
    · intro hwrap
      omega
  | readReceive uid result length data =>
    obtain ⟨b, rfl, hb⟩ := h
    simp only [storeCount, copyCount, getSize, wireSize, getData, Encodable, Option.getD_some, hb]
    omega
  | writeReceive uid result => simp [storeCount, copyCount, getSize, wireSize, Encodable]

/-- For a payload of exactly the announced length. -/
theorem encodesInside_iff (m : AMessage) (h : m.PayloadFits) : m.EncodesInside ↔ m.Encodable := by
  rw [encodesInside_iff_counts, h.counts_iff]

theorem encodesInside_readAnswer : (readReceive 1 1 4 (some [1, 2, 3, 4])).EncodesInside :=
  (encodesInside_iff (readReceive 1 1 4 (some [1, 2, 3, 4])) ⟨[1, 2, 3, 4], rfl, rfl⟩).mpr
    (show 25 + (4 : UInt64).toNat < 2 ^ 32 by decide)

/-- The request for writing one byte reads the payload byte with index 1. -/
theorem writeSend_overread :
    (writeSend 1 0 1 (some [7])).PayloadFits ∧ ¬ (writeSend 1 0 1 (some [7])).EncodesInside := by
  refine ⟨⟨[7], rfl, rfl⟩, ?_⟩
  intro h
  have hindex := (h 0).2 1 (by decide)
  simp [getData] at hindex

end AMessage

end IoTDrive.Message
