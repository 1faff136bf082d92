import IoTDrive.Message.Codec
import Mathlib.Tactic.SplitIfs

/-! One datagram at its receiver. Both ends read into a stack buffer of `BUFSIZ`
bytes, one byte of which `recvfrom` never fills; a longer datagram is cut there.
The receiver wants the two header words and a size word no larger than what
arrived, looks the type word up in its message factory and decodes. A message
whose encoding fits the buffer arrives whole; a longer one is dropped. -/

namespace IoTDrive.Message

open Lib AMessage

/-- `BUFSIZ` of the C library. -/
def bufsiz : ℕ := 8192

/-- `UDPSocket::ReceiveFrom(buffer, BUFSIZ - 1)`: `recvfrom` cuts a longer datagram. -/
def receiveFrom (d : List UInt8) : List UInt8 := d.take (bufsiz - 1)

/-- What becomes of a received datagram: the two refusals that are logged, the type
word the factory does not know (it throws), a decoder that leaves the stack
buffer, or a message. -/
inductive Receipt where
  | short
  | mismatch
  | unknownType
  | fault
  | message (m : AMessage)
  deriving DecidableEq, Repr

/-- The receive code that `MasterProxy::GetTaskArgs` and `MinionProxy::OnMinionFDWakeUp`
share. `registered` lists the types in the message factory of the process; `stack`
is what the buffer held before. -/
def receive (registered : List MessageType) (stack : ℕ → UInt8) (d : List UInt8) : Receipt :=
  let bytes := receiveFrom d
  if bytes.length < 8 then .short
  else
    let buffer := bytes ++ (List.range (bufsiz - bytes.length)).map stack
    let msgSize := leNat (buffer.take 4)
    if msgSize > bytes.length then .mismatch
    else
      let messageType := leNat ((buffer.drop 4).take 4)
      match (MessageType.ofCode messageType).filter (· ∈ registered) with
      | none => .unknownType
      | some t =>
        match fromBuffer t (buffer.drop 8) with
        | none => .fault
        | some (m, _) => .message m

/-- The factory of a minion (`MasterProxy::Init`) and of the master
(`MinionManager::Init`). -/
def minionTypes : List MessageType := [.readSend, .writeSend]

def masterTypes : List MessageType := [.readReceive, .writeReceive]

theorem getSize_lt (m : AMessage) : m.getSize < 2 ^ 32 := Nat.mod_lt _ (by decide)

theorem getSize_eq {m : AMessage} (h : m.wireSize < 2 ^ 32) : m.getSize = m.wireSize :=
  Nat.mod_eq_of_lt h

/-! ### The header -/

/-- The first two words of an encoding. -/
theorem header_words {n c : ℕ} (hn : n < 2 ^ 32) (hc : c < 2 ^ 32) (b : List UInt8) :
    leNat ((u32Bytes n ++ (u32Bytes c ++ b)).take 4) = n ∧
      leNat (((u32Bytes n ++ (u32Bytes c ++ b)).drop 4).take 4) = c ∧
      (u32Bytes n ++ (u32Bytes c ++ b)).drop 8 = b := by
  have h4 : ∀ k, (u32Bytes k).length = 4 := u32Bytes_length
  have hval : ∀ k, k < 2 ^ 32 → leNat (u32Bytes k) = k := fun k hk =>
    leNat_leBytes_of_lt (by simpa using hk)
  refine ⟨?_, ?_, ?_⟩
  · rw [List.take_append_of_le_length (by simp), List.take_of_length_le (by simp), hval n hn]
  · rw [List.drop_left' (h4 n), List.take_append_of_le_length (by simp),
      List.take_of_length_le (by simp), hval c hc]
  · rw [← List.append_assoc, List.drop_left' (by simp)]

/-- The encoding of a message with its payload. -/
theorem datagram_eq (beyond : ℕ → UInt8) {m : AMessage} (hp : m.PayloadFits)
    (hs : m.wireSize < 2 ^ 32) :
    ∃ b, m.body beyond = some b ∧ 8 + b.length = m.wireSize ∧
      m.datagram beyond =
        some (u32Bytes m.wireSize ++ (u32Bytes m.getMessageType.code ++ b)) := by
  obtain ⟨b, hb, -⟩ := fromBuffer_body beyond hp (by omega)
  have hl := body_length hb (by omega)
  refine ⟨b, hb, hl, ?_⟩
  rw [datagram, toBuffer, hb, Option.map_some, Option.bind_some, getSize_eq hs, if_pos]
  simp
  omega

/-- A datagram no longer than the receive buffer is read whole by a receiver that knows its type:
what it decodes is what the decoder of the class makes of the fields. -/
theorem receive_of_body (registered : List MessageType) {m m' : AMessage} {beyond : ℕ → UInt8}
    {b d : List UInt8} (ht : m.getMessageType ∈ registered) (hb : m.body beyond = some b)
    (hd : m.datagram beyond = some d) (hs : m.getSize ≤ bufsiz - 1)
    (hdec : ∀ rest, fromBuffer m.getMessageType (b ++ rest) = some (m', rest))
    (stack : ℕ → UInt8) : receive registered stack d = .message m' := by
  simp only [datagram, toBuffer, hb, Option.map_some, Option.bind_some] at hd
  split_ifs at hd with hlen
  obtain rfl := Option.some.inj hd
  have hrec : receiveFrom (u32Bytes m.getSize ++ (u32Bytes m.getMessageType.code ++ b)) =
      u32Bytes m.getSize ++ (u32Bytes m.getMessageType.code ++ b) :=
    List.take_of_length_le (by omega)
  have hsize : 8 ≤ m.getSize := by
    rw [← hlen]
    simp
    omega
  have hw := header_words (getSize_lt m) m.getMessageType.code_lt
    (b ++ (List.range (bufsiz - m.getSize)).map stack)
  have hreg : (some m.getMessageType).filter (· ∈ registered) = some m.getMessageType := by
    simp [ht]
  simp only [receive, hrec, hlen, List.append_assoc]
  rw [if_neg (by omega), hw.1, if_neg (by omega), hw.2.1, MessageType.ofCode_code, hw.2.2]
  simp only [hreg, hdec]

/-- A message that fits the receive buffer arrives whole at a receiver that knows its
type. -/
theorem receive_datagram (registered : List MessageType) (m : AMessage) (beyond : ℕ → UInt8)
    (ht : m.getMessageType ∈ registered) (hp : m.PayloadFits) (hs : m.wireSize ≤ bufsiz - 1) :
    ∃ d, m.datagram beyond = some d ∧
      ∀ stack, receive registered stack d = .message (m.received beyond) := by
  have hb32 : m.wireSize < 2 ^ 32 := by simp only [bufsiz] at hs; omega
  obtain ⟨b, hb, -, hd⟩ := datagram_eq beyond hp hb32
  obtain ⟨b', hb', hdec⟩ := fromBuffer_body beyond hp (by omega)
  obtain rfl : b = b' := Option.some.inj (hb.symm.trans hb')
  refine ⟨_, hd, ?_⟩
  exact receive_of_body registered ht hb hd (by rw [getSize_eq hb32]; exact hs) hdec

/-- A longer message is cut by `recvfrom`, and the size word then betrays it. -/
theorem receive_oversize (registered : List MessageType) {m : AMessage} (beyond : ℕ → UInt8)
    (hp : m.PayloadFits) (hs : bufsiz - 1 < m.wireSize) (hb32 : m.wireSize < 2 ^ 32) :
    ∃ d, m.datagram beyond = some d ∧ ∀ stack, receive registered stack d = .mismatch := by
  obtain ⟨b, hb, hl, hd⟩ := datagram_eq beyond hp hb32
  refine ⟨_, hd, fun stack => ?_⟩
  have hlen : (receiveFrom (u32Bytes m.wireSize ++ (u32Bytes m.getMessageType.code ++ b))).length
      = bufsiz - 1 := by
    simp [receiveFrom]
    omega
  have hfirst : ∀ rest : List UInt8,
      leNat ((receiveFrom (u32Bytes m.wireSize ++ (u32Bytes m.getMessageType.code ++ b)) ++
        rest).take 4) = m.wireSize := by
    intro rest
    rw [List.take_append_of_le_length (by rw [hlen]; decide), receiveFrom, List.take_take,
      Nat.min_eq_left (by decide), (header_words hb32 m.getMessageType.code_lt b).1]
  simp only [receive, hfirst, hlen]
  rw [if_neg (by decide), if_pos hs]

theorem fromBuffer_getData_length {t : MessageType} {buf rest : List UInt8} {m : AMessage}
    (h : fromBuffer t buf = some (m, rest)) {b : List UInt8} (hb : m.getData = some b) :
    b.length ≤ buf.length := by
  have take_le : ∀ {k : ℕ} {c : List UInt8} {p : List UInt8 × List UInt8},
      takeBytes k c = some p → p.1.length ≤ c.length ∧ p.2.length ≤ c.length := by
    intro k c p hp
    simp only [takeBytes] at hp
    split_ifs at hp
    simp only [Option.some.injEq] at hp
    simp [← hp]
  have take64_le : ∀ {c : List UInt8} {p : UInt64 × List UInt8},
      takeU64 c = some p → p.2.length ≤ c.length := by
    intro c p hp
    obtain ⟨w, hw, rfl⟩ := Option.map_eq_some_iff.mp hp
    obtain ⟨v, hv, rfl⟩ := Option.map_eq_some_iff.mp hw
    exact (take_le hv).2
  cases t with
  | readSend =>
    simp only [fromBuffer, Option.bind_eq_bind, Option.bind_eq_some_iff, Option.pure_def,
      Option.some.injEq, Prod.mk.injEq] at h
    obtain ⟨_, -, _, -, _, -, rfl, -⟩ := h
    simp [getData] at hb
  | writeSend =>
    simp only [fromBuffer, Option.bind_eq_bind, Option.bind_eq_some_iff, Option.pure_def,
      Option.some.injEq, Prod.mk.injEq] at h
    obtain ⟨_, h1, _, h2, _, h3, _, h4, rfl, -⟩ := h
    have e1 := take64_le h1
    have e2 := take64_le h2
    have e3 := take64_le h3
    have e4 := take_le h4
    simp only [getData, Option.some.injEq] at hb
    rw [← hb]
    omega
  | readReceive =>
    simp only [fromBuffer, Option.bind_eq_bind, Option.bind_eq_some_iff, Option.pure_def,
      Option.some.injEq, Prod.mk.injEq] at h
    obtain ⟨_, h1, _, h2, _, h3, _, h4, rfl, -⟩ := h
    have e1 := take64_le h1
    have e2 : ∀ {c : List UInt8} {p : UInt8 × List UInt8}, takeU8 c = some p →
        p.2.length ≤ c.length := by
      intro c p hp
      cases c with
      | nil => simp [takeU8] at hp
      | cons x xs => simp only [takeU8, Option.some.injEq] at hp; simp [← hp]
    have e2' := e2 h2
    have e3 := take64_le h3
    have e4 := take_le h4
    simp only [getData, Option.some.injEq] at hb
    rw [← hb]
    omega
  | writeReceive =>
    simp only [fromBuffer, Option.bind_eq_bind, Option.bind_eq_some_iff, Option.pure_def,
      Option.some.injEq, Prod.mk.injEq] at h
    obtain ⟨_, -, _, -, rfl, -⟩ := h
    simp [getData] at hb

/-- A decoded payload is no longer than the receive buffer. -/
theorem receive_getData_length {registered : List MessageType} {stack : ℕ → UInt8}
    {d b : List UInt8} {m : AMessage} (h : receive registered stack d = .message m)
    (hb : m.getData = some b) : b.length ≤ bufsiz := by
  simp only [receive] at h
  split_ifs at h
  split at h
  · simp at h
  · split at h
    · simp at h
    · next hf =>
      simp only [Receipt.message.injEq] at h
      subst h
      have := fromBuffer_getData_length hf hb
      simp [receiveFrom] at this
      omega

/-- A message that has a datagram fits the size word: the encoding of a longer one does
not fit the buffer allocated for it. -/
theorem wireSize_lt_of_datagram {beyond : ℕ → UInt8} {m : AMessage} {d : List UInt8}
    (hd : m.datagram beyond = some d) (hs : m.wireSize < 2 ^ 64) : m.wireSize < 2 ^ 32 := by
  simp only [datagram, toBuffer, Option.bind_eq_some_iff, Option.map_eq_some_iff] at hd
  obtain ⟨_, ⟨b, hb, rfl⟩, h⟩ := hd
  split_ifs at h with hlen
  have hl := body_length hb hs
  have hlt := getSize_lt m
  simp at hlen
  omega

end IoTDrive.Message
