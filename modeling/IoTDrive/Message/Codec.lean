import IoTDrive.Lib.Memory
import IoTDrive.Lib.Words

/-! The four message classes of the UDP channel. A message is a size word, a type
word, the UID and then the fields of its class, all in host byte order. `toBuffer`
lists the bytes the encoder writes, `getSize` is the 32-bit size the encoder
announces and the sender allocates, `fromBuffer` is the decoder behind the two
header words. `MessageWriteSend` copies one byte more than its length, so its
encoder reads one byte past a payload of exactly that length; what stands there is
a parameter. -/

namespace IoTDrive.Message

open Lib

/-- `UID`, as the word that travels in every message. -/
abbrev UID := UInt64

/-- `enum MESSAGE_TYPE`. -/
inductive MessageType where
  | readSend | writeSend | readReceive | writeReceive
  deriving DecidableEq, Repr

namespace MessageType

def code : MessageType → ℕ
  | .readSend => 0
  | .writeSend => 1
  | .readReceive => 2
  | .writeReceive => 3

def ofCode : ℕ → Option MessageType
  | 0 => some .readSend
  | 1 => some .writeSend
  | 2 => some .readReceive
  | 3 => some .writeReceive
  | _ => none

@[simp] theorem ofCode_code (t : MessageType) : ofCode t.code = some t := by cases t <;> rfl

theorem code_lt (t : MessageType) : t.code < 2 ^ 32 := by cases t <;> decide

end MessageType

/-- The message objects. A payload is a `shared_ptr<char[]>`: null, or the bytes that
were allocated for it, whose number need not be the length field. -/
inductive AMessage where
  | readSend (uid offset length : UInt64)
  | writeSend (uid offset length : UInt64) (buffer : Option (List UInt8))
  | readReceive (uid : UInt64) (result : UInt8) (length : UInt64) (buffer : Option (List UInt8))
  | writeReceive (uid : UInt64) (result : UInt8)
  deriving DecidableEq, Repr

/-- `std::copy` of `n` bytes from a payload; `none` is a copy from a null pointer. -/
def copyFrom (buf : Option (List UInt8)) (beyond : ℕ → UInt8) (n : ℕ) : Option (List UInt8) :=
  match buf with
  | some b => some (memRead b beyond n)
  | none => if n = 0 then some [] else none

namespace AMessage

def getMessageType : AMessage → MessageType
  | .readSend .. => .readSend
  | .writeSend .. => .writeSend
  | .readReceive .. => .readReceive
  | .writeReceive .. => .writeReceive

def getUID : AMessage → UID
  | .readSend uid _ _ => uid
  | .writeSend uid _ _ _ => uid
  | .readReceive uid _ _ _ => uid
  | .writeReceive uid _ => uid

/-- The getters the base class answers with a default. -/
def getOffset : AMessage → UInt64
  | .readSend _ offset _ => offset
  | .writeSend _ offset _ _ => offset
  | _ => 0

def getLength : AMessage → UInt64
  | .readSend _ _ length => length
  | .writeSend _ _ length _ => length
  | .readReceive _ _ length _ => length
  | .writeReceive .. => 0

def getResult : AMessage → Bool
  | .readReceive _ result _ _ => result != 0
  | .writeReceive _ result => result != 0
  | _ => true

def getData : AMessage → Option (List UInt8)
  | .writeSend _ _ _ buffer => buffer
  | .readReceive _ _ _ buffer => buffer
  | _ => none

/-- The size of the encoding before it is cut to 32 bits. -/
def wireSize : AMessage → ℕ
  | .readSend .. => 16 + 8 + 8
  | .writeSend _ _ length _ => 16 + 8 + 8 + length.toNat + 1
  | .readReceive _ _ length _ => 16 + 1 + 8 + length.toNat
  | .writeReceive .. => 16 + 1

/-- `GetSize`, a `uint32_t`. -/
def getSize (m : AMessage) : ℕ := m.wireSize % 2 ^ 32

/-- The fields behind the two header words; the number of payload bytes copied wraps
as the source's pointer arithmetic does. -/
def body (beyond : ℕ → UInt8) : AMessage → Option (List UInt8)
  | .readSend uid offset length => some (u64Bytes uid ++ (u64Bytes offset ++ u64Bytes length))
  | .writeSend uid offset length buffer =>
    (copyFrom buffer beyond ((length.toNat + 1) % 2 ^ 64)).map fun data =>
      u64Bytes uid ++ (u64Bytes offset ++ (u64Bytes length ++ data))
  | .readReceive uid result length buffer =>
    (copyFrom buffer beyond length.toNat).map fun data =>
      u64Bytes uid ++ (result :: (u64Bytes length ++ data))
  | .writeReceive uid result => some (u64Bytes uid ++ [result])

/-- `ToBuffer`: the bytes written from the start of the buffer on. -/
def toBuffer (beyond : ℕ → UInt8) (m : AMessage) : Option (List UInt8) :=
  (m.body beyond).map fun b => u32Bytes m.getSize ++ (u32Bytes m.getMessageType.code ++ b)

/-- `new char[GetSize()]`, `ToBuffer` and the bytes handed to `SendTo`. An encoder that
writes more or fewer bytes than were allocated has no defined result. -/
def datagram (beyond : ℕ → UInt8) (m : AMessage) : Option (List UInt8) :=
  (m.toBuffer beyond).bind fun bytes => if bytes.length = m.getSize then some bytes else none

end AMessage

open AMessage

/-- `FromBuffer` of the class the type word selects, on the bytes behind the header. It
returns the message and the bytes after the last one read; `none` is a read
outside the buffer (or an allocation no machine serves). -/
def fromBuffer (t : MessageType) (buf : List UInt8) : Option (AMessage × List UInt8) :=
  match t with
  | .readSend => do
    let (uid, buf) ← takeU64 buf
    let (offset, buf) ← takeU64 buf
    let (length, buf) ← takeU64 buf
    return (.readSend uid offset length, buf)
  | .writeSend => do
    let (uid, buf) ← takeU64 buf
    let (offset, buf) ← takeU64 buf
    let (length, buf) ← takeU64 buf
    let (data, buf) ← takeBytes ((length.toNat + 1) % 2 ^ 64) buf
    return (.writeSend uid offset length (some data), buf)
  | .readReceive => do
    let (uid, buf) ← takeU64 buf
    let (result, buf) ← takeU8 buf
    let (length, buf) ← takeU64 buf
    let (data, buf) ← takeBytes length.toNat buf
    return (.readReceive uid result length (some data), buf)
  | .writeReceive => do
    let (uid, buf) ← takeU64 buf
    let (result, buf) ← takeU8 buf
    return (.writeReceive uid result, buf)

/-! ### Round trip -/

namespace AMessage

/-- The payload holds the bytes the length field announces. -/
def PayloadFits : AMessage → Prop
  | .readSend .. => True
  | .writeSend _ _ length buffer => ∃ b, buffer = some b ∧ b.length = length.toNat
  | .readReceive _ _ length buffer => ∃ b, buffer = some b ∧ b.length = length.toNat
  | .writeReceive .. => True

/-- What the receiver rebuilds: the same message, a write request with the byte
behind its payload. -/
def received (beyond : ℕ → UInt8) : AMessage → AMessage
  | .writeSend uid offset length (some b) =>
    .writeSend uid offset length (some (b ++ [beyond b.length]))
  | m => m

theorem body_length {beyond : ℕ → UInt8} {m : AMessage} {b : List UInt8}
    (h : m.body beyond = some b) (hs : m.wireSize < 2 ^ 64) : 8 + b.length = m.wireSize := by
  cases m with
  | readSend uid offset length =>
    simp only [body, Option.some.injEq] at h
    simp [← h, wireSize]
  | writeSend uid offset length buffer =>
    simp only [wireSize] at hs
    obtain ⟨data, hd, rfl⟩ := Option.map_eq_some_iff.mp h
    have hn : (length.toNat + 1) % 2 ^ 64 = length.toNat + 1 := Nat.mod_eq_of_lt (by omega)
    have hl : data.length = length.toNat + 1 := by
      rw [hn] at hd
      cases buffer with
      | none => simp [copyFrom] at hd
      | some c => simp only [copyFrom, Option.some.injEq] at hd; simp [← hd]
    simp [wireSize, hl]
    omega
  | readReceive uid result length buffer =>
    obtain ⟨data, hd, rfl⟩ := Option.map_eq_some_iff.mp h
    have hl : data.length = length.toNat := by
      cases buffer with
      | none =>
        simp only [copyFrom] at hd
        split_ifs at hd with h0
        simp [← Option.some.inj hd, h0]
      | some c => simp only [copyFrom, Option.some.injEq] at hd; simp [← hd]
    simp [wireSize, hl]
    omega
  | writeReceive uid result =>
    simp only [body, Option.some.injEq] at h
    simp [← h, wireSize]

/-- The encoder's fields, decoded by the class of the message. -/
theorem fromBuffer_body (beyond : ℕ → UInt8) {m : AMessage} (hp : m.PayloadFits)
    (hs : m.wireSize < 2 ^ 64) :
    ∃ b, m.body beyond = some b ∧
      ∀ rest, fromBuffer m.getMessageType (b ++ rest) = some (m.received beyond, rest) := by
  cases m with
  | readSend uid offset length =>
    exact ⟨_, rfl, fun rest => by simp [fromBuffer, getMessageType, received, List.append_assoc]⟩
  | writeSend uid offset length buffer =>
    obtain ⟨c, rfl, hc⟩ := hp
    simp only [wireSize] at hs
    have hn : (length.toNat + 1) % 2 ^ 64 = c.length + 1 := by
      rw [Nat.mod_eq_of_lt (by omega), hc]
    refine ⟨_, rfl, fun rest => ?_⟩
    rw [hn, memRead_succ]
    have ht : takeBytes (c.length + 1) (c ++ [beyond c.length] ++ rest) =
        some (c ++ [beyond c.length], rest) := takeBytes_append (by simp)
    simp only [fromBuffer, getMessageType, received, List.append_assoc, takeU64_append,
      Option.bind_eq_bind, Option.bind_some, hn]
    rw [← List.append_assoc c, ht]
    rfl
  | readReceive uid result length buffer =>
    obtain ⟨c, rfl, hc⟩ := hp
    refine ⟨_, rfl, fun rest => ?_⟩
    rw [memRead_of_le _ (by omega), List.take_of_length_le (by omega)]
    have ht : takeBytes length.toNat (c ++ rest) = some (c, rest) := takeBytes_append hc
    simp only [fromBuffer, getMessageType, received, List.append_assoc, List.cons_append,
      takeU64_append, takeU8_cons, Option.bind_eq_bind, Option.bind_some, ht]
    rfl
  | writeReceive uid result =>
    exact ⟨_, rfl, fun rest => by simp [fromBuffer, getMessageType, received, List.append_assoc]⟩

end AMessage

end IoTDrive.Message
