import IoTDrive.Message.Datagram
import IoTDrive.Lib.Pointer

/-! The codec as the source writes it, through a pointer. `toBufferAt` stores the two
header words and the fields of a class one after another and returns the pointer behind the
last one; `fromBufferAt` loads the fields, asks the allocator for the payload
and copies it. Both are connected to the byte strings of `Message/Codec`: the encoder stores
`toBuffer`, the decoder reads what `fromBuffer` reads. Then the two are inverse. -/

namespace IoTDrive.Message

open Lib

namespace AMessage

/-- `ToBuffer` of the four classes; `none` is a copy from a null payload. -/
def toBufferAt (beyond : ℕ → UInt8) (m : AMessage) (buffer : Cursor UInt8) :
    Option (Cursor UInt8) :=
  let buffer := buffer.put (u32Bytes m.getSize)
  let buffer := buffer.put (u32Bytes m.getMessageType.code)
  match m with
  | .readSend uid offset length =>
    some (((buffer.put (u64Bytes uid)).put (u64Bytes offset)).put (u64Bytes length))
  | .writeSend uid offset length data =>
    let buffer := ((buffer.put (u64Bytes uid)).put (u64Bytes offset)).put (u64Bytes length)
    (copyFrom data beyond ((length.toNat + 1) % 2 ^ 64)).map buffer.put
  | .readReceive uid result length data =>
    let buffer := ((buffer.put (u64Bytes uid)).put [result]).put (u64Bytes length)
    (copyFrom data beyond length.toNat).map buffer.put
  | .writeReceive uid result => some ((buffer.put (u64Bytes uid)).put [result])

end AMessage

open AMessage Reader

/-- `FromBuffer` of the four classes. `alloc` says which sizes `make_shared` gets; where it
throws, nothing is copied. -/
def fromBufferAt (alloc : ℕ → Bool) : MessageType → Reader UInt8 AMessage
  | .readSend => do
    let uid ← word64
    let offset ← word64
    let length ← word64
    return .readSend uid offset length
  | .writeSend => do
    let uid ← word64
    let offset ← word64
    let length ← word64
    require (alloc ((length.toNat + 1) % 2 ^ 64))
    let data ← block ((length.toNat + 1) % 2 ^ 64)
    return .writeSend uid offset length (some data)
  | .readReceive => do
    let uid ← word64
    let result ← byte
    let length ← word64
    require (alloc length.toNat)
    let data ← block length.toNat
    return .readReceive uid result length (some data)
  | .writeReceive => do
    let uid ← word64
    let result ← byte
    return .writeReceive uid result

/-! ### The encoder -/

namespace AMessage

/-- The encoder stores the bytes of `toBuffer`, whatever stood there. -/
theorem toBufferAt_eq (beyond : ℕ → UInt8) (m : AMessage) (buffer : Cursor UInt8) :
    m.toBufferAt beyond buffer = (m.toBuffer beyond).map buffer.put := by
  cases m with
  | readSend uid offset length => simp [toBufferAt, toBuffer, body, Cursor.put_put]
  | writeSend uid offset length data =>
    simp only [toBufferAt, toBuffer, body, Option.map_map, Cursor.put_put]
    congr 1
    funext bytes
    simp [Cursor.put_put]
  | readReceive uid result length data =>
    simp only [toBufferAt, toBuffer, body, Option.map_map, Cursor.put_put]
    congr 1
    funext bytes
    simp [Cursor.put_put]
  | writeReceive uid result => simp [toBufferAt, toBuffer, body, Cursor.put_put]

/-- The payload bytes the encoder reads are there: `m_length` of them, one more in a write
request. A null pointer has none. -/
def Readable : AMessage → Prop
  | .readSend .. => True
  | .writeSend _ _ length buffer => length.toNat + 1 ≤ (buffer.getD []).length
  | .readReceive _ _ length buffer => length.toNat ≤ (buffer.getD []).length
  | .writeReceive .. => True

/-- The same class, the same fields and the same first `m_length` payload bytes. -/
def SameFields : AMessage → AMessage → Prop
  | .readSend uid offset length, .readSend uid' offset' length' =>
    uid' = uid ∧ offset' = offset ∧ length' = length
  | .writeSend uid offset length buffer, .writeSend uid' offset' length' buffer' =>
    uid' = uid ∧ offset' = offset ∧ length' = length ∧
      (buffer'.getD []).take length.toNat = (buffer.getD []).take length.toNat
  | .readReceive uid result length buffer, .readReceive uid' result' length' buffer' =>
    uid' = uid ∧ result' = result ∧ length' = length ∧
      (buffer'.getD []).take length.toNat = (buffer.getD []).take length.toNat
  | .writeReceive uid result, .writeReceive uid' result' => uid' = uid ∧ result' = result
  | _, _ => False

/-- What the decoder rebuilds from the encoding: a payload of its own, as long as what
was copied. -/
def rebuilt : AMessage → AMessage
  | .writeSend uid offset length buffer =>
    .writeSend uid offset length (some ((buffer.getD []).take (length.toNat + 1)))
  | .readReceive uid result length buffer =>
    .readReceive uid result length (some ((buffer.getD []).take length.toNat))
  | m => m

theorem copyFrom_of_le {buf : Option (List UInt8)} {n : ℕ} (beyond : ℕ → UInt8)
    (h : n ≤ (buf.getD []).length) : copyFrom buf beyond n = some ((buf.getD []).take n) := by
  cases buf with
  | none =>
    obtain rfl : n = 0 := by simpa using h
    simp [copyFrom]
  | some b => simp [copyFrom, memRead_of_le beyond (show n ≤ b.length from h)]

theorem sameFields_rebuilt (m : AMessage) : m.SameFields m.rebuilt := by
  cases m <;> simp [SameFields, rebuilt, List.take_take]

/-- Encoding reads only bytes of the payload, so what stands behind it does not matter,
and the rebuilt message has the same encoding. -/
theorem toBuffer_rebuilt {m : AMessage} (hr : m.Readable) (hs : m.wireSize < 2 ^ 32)
    (beyond beyond' : ℕ → UInt8) : m.rebuilt.toBuffer beyond' = m.toBuffer beyond := by
  cases m with
  | readSend uid offset length => rfl
  | writeSend uid offset length buffer =>
    simp only [wireSize] at hs
    have hn : (length.toNat + 1) % 2 ^ 64 = length.toNat + 1 := Nat.mod_eq_of_lt (by omega)
    have hl : length.toNat + 1 ≤ (buffer.getD []).length := hr
    have hl' : length.toNat + 1 ≤
        ((some ((buffer.getD []).take (length.toNat + 1))).getD []).length := by simp; omega
    simp only [rebuilt, toBuffer, body, hn, copyFrom_of_le _ hl, copyFrom_of_le _ hl']
    simp [List.take_take, getSize, wireSize, getMessageType]
  | readReceive uid result length buffer =>
    have hl : length.toNat ≤ (buffer.getD []).length := hr
    have hl' : length.toNat ≤
        ((some ((buffer.getD []).take length.toNat)).getD []).length := by simp; omega
    simp only [rebuilt, toBuffer, body, copyFrom_of_le _ hl, copyFrom_of_le _ hl']
    simp [List.take_take, getSize, wireSize, getMessageType]
  | writeReceive uid result => rfl

theorem body_isSome {m : AMessage} (hr : m.Readable) (hs : m.wireSize < 2 ^ 32)
    (beyond : ℕ → UInt8) : ∃ b, m.body beyond = some b := by
  cases m with
  | readSend uid offset length => exact ⟨_, rfl⟩
  | writeSend uid offset length buffer =>
    simp only [wireSize] at hs
    have hn : (length.toNat + 1) % 2 ^ 64 = length.toNat + 1 := Nat.mod_eq_of_lt (by omega)
    exact ⟨_, by rw [body, hn, copyFrom_of_le beyond hr, Option.map_some]⟩
  | readReceive uid result length buffer =>
    exact ⟨_, by rw [body, copyFrom_of_le beyond hr, Option.map_some]⟩
  | writeReceive uid result => exact ⟨_, rfl⟩

/-! ### The decoder -/

theorem leNat_u32Bytes {n : ℕ} (h : n < 2 ^ 32) : leNat (u32Bytes n) = n :=
  leNat_leBytes_of_lt (by simpa using h)

theorem ofNat_leNat_u64Bytes (x : UInt64) : UInt64.ofNat (leNat (u64Bytes x)) = x := by
  have hx : leNat (u64Bytes x) = x.toNat := leNat_leBytes_of_lt x.toNat_lt
  rw [hx, UInt64.ofNat_toNat]

/-- Behind the header of an encoding the decoder rebuilds the message and ends where the
encoder ended. -/
theorem fromBufferAt_body {m : AMessage} (hr : m.Readable) (hs : m.wireSize < 2 ^ 32)
    {beyond : ℕ → UInt8} {b : List UInt8} (hb : m.body beyond = some b) {mem : ℕ → UInt8}
    {pos : ℕ} (hm : load mem pos b.length = b) :
    ((fromBufferAt (fun _ => true) m.getMessageType).run mem pos).value = some m.rebuilt ∧
      ((fromBufferAt (fun _ => true) m.getMessageType).run mem pos).pos = pos + b.length := by
  cases m with
  | readSend uid offset length =>
    simp only [body, Option.some.injEq] at hb
    subst hb
    simp only [load_eq_append, u64Bytes_length] at hm
    obtain ⟨hu, ho, hl⟩ := hm
    simp [fromBufferAt, getMessageType, rebuilt, ofNat_leNat_u64Bytes, hu, ho, hl]
  | writeSend uid offset length buffer =>
    simp only [wireSize] at hs
    have hn : (length.toNat + 1) % 2 ^ 64 = length.toNat + 1 := Nat.mod_eq_of_lt (by omega)
    have hp : length.toNat + 1 ≤ (buffer.getD []).length := hr
    simp only [body, hn, copyFrom_of_le beyond hp, Option.map_some, Option.some.injEq] at hb
    subst hb
    simp only [load_eq_append, u64Bytes_length, List.length_take, Nat.min_eq_left hp] at hm
    obtain ⟨hu, ho, hl, hd⟩ := hm
    simp only [fromBufferAt, getMessageType, rebuilt, run_word64_bind, run_block_bind, run_require_bind,
      hu, ho, hl, hn, ofNat_leNat_u64Bytes, hd]
    simp [Nat.min_eq_left hp]
    omega
  | readReceive uid result length buffer =>
    have hp : length.toNat ≤ (buffer.getD []).length := hr
    simp only [body, copyFrom_of_le beyond hp, Option.map_some, Option.some.injEq] at hb
    subst hb
    rw [← List.singleton_append] at hm ⊢
    simp only [load_eq_append, u64Bytes_length, List.length_take, Nat.min_eq_left hp,
      List.length_singleton] at hm
    obtain ⟨hu, hres, hl, hd⟩ := hm
    have hres' : mem (pos + 8) = result := by simpa [load] using hres
    simp only [fromBufferAt, getMessageType, rebuilt, run_word64_bind, run_byte_bind, run_block_bind,
      run_require_bind, hu, hres', hl, ofNat_leNat_u64Bytes, hd]
    simp [Nat.min_eq_left hp]
    omega
  | writeReceive uid result =>
    simp only [body, Option.some.injEq] at hb
    subst hb
    simp only [load_eq_append, u64Bytes_length, List.length_singleton] at hm
    obtain ⟨hu, hres⟩ := hm
    have hres' : mem (pos + 8) = result := by simpa [load] using hres
    simp [fromBufferAt, getMessageType, rebuilt, ofNat_leNat_u64Bytes, hu, hres']

/-- Encoding and decoding. The encoder stores `GetSize()` bytes that depend on the message
alone and returns the pointer behind them; the two header words are the size and the
type; the decoder of that type, started behind the header, rebuilds the
message and ends at the same pointer; and the rebuilt message is encoded by the same bytes. -/
theorem codec_round_trip (m : AMessage) (beyond : ℕ → UInt8) (hr : m.Readable)
    (hs : m.wireSize < 2 ^ 32) :
    ∃ (bytes : List UInt8) (m' : AMessage), bytes.length = m.getSize ∧
      (∀ buffer : Cursor UInt8, ∃ c, m.toBufferAt beyond buffer = some c ∧
        c.memory = storeAt buffer.memory buffer.pos bytes ∧ c.pos = buffer.pos + m.getSize ∧
        leNat (load c.memory buffer.pos 4) = m.getSize ∧
        leNat (load c.memory (buffer.pos + 4) 4) = m.getMessageType.code ∧
        ∃ t, MessageType.ofCode (leNat (load c.memory (buffer.pos + 4) 4)) = some t ∧
          ((fromBufferAt (fun _ => true) t).run c.memory (buffer.pos + 8)).value = some m' ∧
          ((fromBufferAt (fun _ => true) t).run c.memory (buffer.pos + 8)).pos = c.pos) ∧
      m.SameFields m' ∧
      ∀ (beyond' : ℕ → UInt8) (buffer : Cursor UInt8), m'.toBufferAt beyond' buffer =
        some ⟨storeAt buffer.memory buffer.pos bytes, buffer.pos + m.getSize⟩ := by
  obtain ⟨b, hb⟩ := body_isSome hr hs beyond
  have hlen := body_length hb (by omega)
  have hsize := getSize_eq hs
  have hbytes : m.toBuffer beyond =
      some (u32Bytes m.getSize ++ (u32Bytes m.getMessageType.code ++ b)) := by
    rw [toBuffer, hb, Option.map_some]
  have hcount : (u32Bytes m.getSize ++ (u32Bytes m.getMessageType.code ++ b)).length =
      m.getSize := by
    rw [hsize]
    simp
    omega
  refine ⟨_, m.rebuilt, hcount, fun buffer => ?_, m.sameFields_rebuilt, fun beyond' buffer => ?_⟩
  · have hmem := load_storeAt buffer.memory buffer.pos
      (u32Bytes m.getSize ++ (u32Bytes m.getMessageType.code ++ b))
    simp only [load_eq_append, u32Bytes_length] at hmem
    obtain ⟨hword, htype, hbody⟩ := hmem
    have hcode : leNat (load (storeAt buffer.memory buffer.pos (u32Bytes m.getSize ++
        (u32Bytes m.getMessageType.code ++ b))) (buffer.pos + 4) 4) = m.getMessageType.code := by
      rw [htype, leNat_u32Bytes m.getMessageType.code_lt]
    have hdec := fromBufferAt_body hr hs hb hbody
    refine ⟨_, by rw [toBufferAt_eq, hbytes, Option.map_some], rfl, by rw [Cursor.put, hcount],
      ?_, hcode, m.getMessageType, ?_, hdec.1, ?_⟩
    · exact hword.symm ▸ leNat_u32Bytes (getSize_lt m)
    · exact hcode.symm ▸ MessageType.ofCode_code _
    · refine hdec.2.trans ?_
      simp only [Cursor.put, hcount]
      omega
  · rw [toBufferAt_eq, toBuffer_rebuilt hr hs beyond beyond', hbytes, Option.map_some, Cursor.put,
      hcount]

theorem codec_round_trip_twoBytes :
    (writeSend 1 4 2 (some [7, 8, 9])).Readable ∧
      ∃ (bytes : List UInt8) (m' : AMessage), bytes.length = 35 ∧
        (writeSend 1 4 2 (some [7, 8, 9])).SameFields m' := by
  obtain ⟨bytes, m', hlen, -, hsame, -⟩ := codec_round_trip (writeSend 1 4 2 (some [7, 8, 9]))
    (fun _ => 0) (by simp [Readable]) (by simp [wireSize])
  exact ⟨by simp [Readable], bytes, m', by simpa [getSize, wireSize] using hlen, hsame⟩

end AMessage

end IoTDrive.Message
