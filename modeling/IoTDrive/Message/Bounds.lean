import IoTDrive.Message.RoundTrip

/-! Where a receiver reads. `MasterProxy::GetTaskArgs` and `MinionProxy::OnMinionFDWakeUp`
share one receive path: the header words, the size check, the factory and the decoder of the
class, all on a stack buffer of which only the first bytes are the datagram. Its log
of addresses says whether it stayed inside the datagram. The size word is only
compared with what arrived, never with what the fields need, so it does so exactly for the
datagrams that are refused or that hold their own fields. -/

namespace IoTDrive.Message

open Lib AMessage Reader

/-- The stack from the start of the receive buffer on: the datagram, and behind it what
stood there. -/
def stackMemory (bytes : List UInt8) (stack : ℕ → UInt8) (i : ℕ) : UInt8 :=
  bytes[i]?.getD (stack (i - bytes.length))

/-- How a receive call ends: the two refusals that are logged, a type the factory does not
know, or a decoded message. -/
inductive Verdict where
  | short
  | mismatch
  | unknownType
  | message (m : AMessage)
  deriving DecidableEq, Repr

/-- The receive path on a buffer into which `recvfrom` stored `count` bytes. -/
def receiveAt (registered : List MessageType) (alloc : ℕ → Bool) (count : ℕ) :
    Reader UInt8 Verdict :=
  if count < 8 then return .short
  else do
    let msgSize ← block 4
    if leNat msgSize > count then return .mismatch
    else do
      let messageType ← block 4
      match (MessageType.ofCode (leNat messageType)).filter (· ∈ registered) with
      | none => return .unknownType
      | some t => do
        let m ← fromBufferAt alloc t
        return .message m

/-- One datagram at a receiver. -/
def receiveDatagram (registered : List MessageType) (alloc : ℕ → Bool) (stack : ℕ → UInt8)
    (d : List UInt8) : Outcome Verdict :=
  (receiveAt registered alloc (receiveFrom d).length).run (stackMemory (receiveFrom d) stack) 0

/-! ### What a class reads -/

/-- The bytes of the fields of fixed size behind the header. -/
def fixedSize : MessageType → ℕ
  | .readSend => 24
  | .writeSend => 24
  | .readReceive => 17
  | .writeReceive => 9

/-- The payload bytes that the fields at `pos` announce. -/
def payloadSize (mem : ℕ → UInt8) (pos : ℕ) : MessageType → ℕ
  | .readSend => 0
  | .writeSend => ((UInt64.ofNat (leNat (load mem (pos + 16) 8))).toNat + 1) % 2 ^ 64
  | .readReceive => (UInt64.ofNat (leNat (load mem (pos + 9) 8))).toNat
  | .writeReceive => 0

variable {registered : List MessageType} {alloc : ℕ → Bool} {stack : ℕ → UInt8} {t : MessageType}
  {mem : ℕ → UInt8} {pos : ℕ}

theorem contiguous_fromBufferAt (alloc : ℕ → Bool) (t : MessageType) :
    (fromBufferAt alloc t).Contiguous := by
  cases t with
  | readSend =>
    exact contiguous_word64.bind fun _ => contiguous_word64.bind fun _ =>
      contiguous_word64.bind fun _ => contiguous_pure _
  | writeSend =>
    exact contiguous_word64.bind fun _ => contiguous_word64.bind fun _ =>
      contiguous_word64.bind fun _ => (contiguous_require _).bind fun _ =>
        (contiguous_block _).bind fun _ => contiguous_pure _
  | readReceive =>
    exact contiguous_word64.bind fun _ => contiguous_byte.bind fun _ =>
      contiguous_word64.bind fun _ => (contiguous_require _).bind fun _ =>
        (contiguous_block _).bind fun _ => contiguous_pure _
  | writeReceive =>
    exact contiguous_word64.bind fun _ => contiguous_byte.bind fun _ => contiguous_pure _

theorem contiguous_receiveAt (registered : List MessageType) (alloc : ℕ → Bool) (count : ℕ) :
    (receiveAt registered alloc count).Contiguous := by
  unfold receiveAt
  split_ifs
  · exact contiguous_pure _
  · refine (contiguous_block _).bind fun msgSize => ?_
    split_ifs
    · exact contiguous_pure _
    · refine (contiguous_block _).bind fun messageType => ?_
      split
      · exact contiguous_pure _
      · exact (contiguous_fromBufferAt alloc _).bind fun _ => contiguous_pure _

/-- A decoder passes its fixed fields and, if the allocator serves it, the payload. -/
theorem fromBufferAt_pos (alloc : ℕ → Bool) (t : MessageType) (mem : ℕ → UInt8) (pos : ℕ) :
    ((fromBufferAt alloc t).run mem pos).pos = pos + (fixedSize t +
      if alloc (payloadSize mem pos t) then payloadSize mem pos t else 0) := by
  cases t with
  | readSend => split_ifs <;> rfl
  | writeSend =>
    split_ifs with ha
    all_goals
      simp only [payloadSize] at ha
      simp only [fromBufferAt, run_word64_bind, run_block_bind, run_require_bind, Nat.add_assoc,
        Nat.reduceAdd, ha]
      rfl
  | readReceive =>
    split_ifs with ha
    all_goals
      simp only [payloadSize] at ha
      simp only [fromBufferAt, run_word64_bind, run_byte_bind, run_block_bind, run_require_bind,
        Nat.add_assoc, Nat.reduceAdd, ha]
      rfl
  | writeReceive => split_ifs <;> rfl

/-- Where the allocator refuses a payload, nothing is decoded. -/
theorem fromBufferAt_refused (hn : payloadSize mem pos t ≠ 0)
    (ha : alloc (payloadSize mem pos t) = false) :
    ((fromBufferAt alloc t).run mem pos).value = none := by
  cases t with
  | readSend => exact absurd rfl hn
  | writeSend =>
    simp only [payloadSize] at ha
    simp only [fromBufferAt, run_word64_bind, run_require_bind, Nat.add_assoc, Nat.reduceAdd, ha]
    rfl
  | readReceive =>
    simp only [payloadSize] at ha
    simp only [fromBufferAt, run_word64_bind, run_byte_bind, run_require_bind, Nat.add_assoc,
      Nat.reduceAdd, ha]
    rfl
  | writeReceive => exact absurd rfl hn

/-! ### The datagram -/

/-- The payload that a datagram announces in its own length field. -/
def declaredPayload (bytes : List UInt8) : MessageType → ℕ
  | .readSend => 0
  | .writeSend => (leNat ((bytes.drop 24).take 8) + 1) % 2 ^ 64
  | .readReceive => leNat ((bytes.drop 17).take 8)
  | .writeReceive => 0

/-- The type word of a datagram, where the receiver has registered it. -/
def typeOf (registered : List MessageType) (bytes : List UInt8) : Option MessageType :=
  (MessageType.ofCode (leNat ((bytes.drop 4).take 4))).filter (· ∈ registered)

/-- The received bytes hold the fixed fields of their class and the payload they announce,
if the allocator serves a payload of that size at all. -/
def HoldsFields (alloc : ℕ → Bool) (bytes : List UInt8) (t : MessageType) : Prop :=
  8 + fixedSize t ≤ bytes.length ∧ (alloc (declaredPayload bytes t) = true →
    8 + fixedSize t + declaredPayload bytes t ≤ bytes.length)

/-- The datagrams a receiver handles without leaving them: too short for a header, refused
by their size word or their type word, or holding their own fields. -/
def Contained (registered : List MessageType) (alloc : ℕ → Bool) (d : List UInt8) : Prop :=
  (receiveFrom d).length < 8 ∨ (receiveFrom d).length < leNat ((receiveFrom d).take 4) ∨
    ∀ t, typeOf registered (receiveFrom d) = some t → HoldsFields alloc (receiveFrom d) t

/-- Every address read lies in the received bytes, and a datagram whose fields reach
further is not decoded. -/
def StaysInside (registered : List MessageType) (alloc : ℕ → Bool) (stack : ℕ → UInt8)
    (d : List UInt8) : Prop :=
  (∀ i ∈ (receiveDatagram registered alloc stack d).reads, i < (receiveFrom d).length) ∧
    ∀ t, typeOf registered (receiveFrom d) = some t → (receiveFrom d).length <
        8 + fixedSize t + payloadSize (stackMemory (receiveFrom d) stack) 8 t →
      ∀ m, (receiveDatagram registered alloc stack d).value ≠ some (.message m)

theorem load_stackMemory {bytes : List UInt8} (stack : ℕ → UInt8) {pos n : ℕ}
    (h : pos + n ≤ bytes.length) :
    load (stackMemory bytes stack) pos n = (bytes.drop pos).take n := by
  have hl : ((bytes.drop pos).take n).length = n := by simp; omega
  apply load_eq_of_getElem? hl
  intro i hi
  have hin : pos + i < bytes.length := by omega
  rw [getElem?_take_drop hi, stackMemory, List.getElem?_eq_getElem hin, Option.getD_some]

/-- Inside the received bytes the length field is the datagram's. -/
theorem payloadSize_stackMemory {bytes : List UInt8} (stack : ℕ → UInt8)
    (h : 8 + fixedSize t ≤ bytes.length) :
    payloadSize (stackMemory bytes stack) 8 t = declaredPayload bytes t := by
  cases t with
  | readSend => rfl
  | writeSend =>
    simp only [fixedSize] at h
    simp only [payloadSize, declaredPayload, load_stackMemory stack (show 8 + 16 + 8 ≤ _ by omega)]
    rw [UInt64.toNat_ofNat', Nat.mod_eq_of_lt (leNat_lt_of_length (n := 8) (by simp; omega))]
  | readReceive =>
    simp only [fixedSize] at h
    simp only [payloadSize, declaredPayload, load_stackMemory stack (show 8 + 9 + 8 ≤ _ by omega)]
    rw [UInt64.toNat_ofNat', Nat.mod_eq_of_lt (leNat_lt_of_length (n := 8) (by simp; omega))]
  | writeReceive => rfl

section Datagram
variable {d : List UInt8}

theorem receiveDatagram_short (h : (receiveFrom d).length < 8) :
    receiveDatagram registered alloc stack d = ⟨some .short, 0, []⟩ := by
  simp only [receiveDatagram, receiveAt, if_pos h, run_pure]

theorem receiveDatagram_mismatch (h : 8 ≤ (receiveFrom d).length)
    (hw : (receiveFrom d).length < leNat ((receiveFrom d).take 4)) :
    receiveDatagram registered alloc stack d = ⟨some .mismatch, 4, List.range' 0 4⟩ := by
  have hword : load (stackMemory (receiveFrom d) stack) 0 4 = (receiveFrom d).take 4 := by
    rw [load_stackMemory stack (by omega), List.drop_zero]
  simp only [receiveDatagram, receiveAt, if_neg (Nat.not_lt.mpr h), run_block_bind, hword,
    if_pos hw, run_pure]
  rfl

/-- Past the size check the type word decides: an unknown type reads the header alone, and
a decoder goes on behind it. -/
theorem receiveDatagram_typed (registered : List MessageType) (alloc : ℕ → Bool)
    (stack : ℕ → UInt8) (h : 8 ≤ (receiveFrom d).length)
    (hw : leNat ((receiveFrom d).take 4) ≤ (receiveFrom d).length) :
    (typeOf registered (receiveFrom d) = none ∧
      (receiveDatagram registered alloc stack d).pos = 8 ∧
      (receiveDatagram registered alloc stack d).value = some .unknownType) ∨
    ∃ t, typeOf registered (receiveFrom d) = some t ∧
      (receiveDatagram registered alloc stack d).pos =
        ((fromBufferAt alloc t).run (stackMemory (receiveFrom d) stack) 8).pos ∧
      (receiveDatagram registered alloc stack d).value =
        ((fromBufferAt alloc t).run (stackMemory (receiveFrom d) stack) 8).value.map .message := by
  have hword : load (stackMemory (receiveFrom d) stack) 0 4 = (receiveFrom d).take 4 := by
    rw [load_stackMemory stack (by omega), List.drop_zero]
  have htype : load (stackMemory (receiveFrom d) stack) (0 + 4) 4 =
      ((receiveFrom d).drop 4).take 4 := load_stackMemory stack (by omega)
  simp only [receiveDatagram, receiveAt, if_neg (Nat.not_lt.mpr h), run_block_bind, hword,
    if_neg (Nat.not_lt.mpr hw), htype]
  cases ht : typeOf registered (receiveFrom d) with
  | none =>
    left
    rw [typeOf] at ht
    simp [ht]
  | some t =>
    refine .inr ⟨t, rfl, ?_⟩
    rw [typeOf] at ht
    simp only [ht, run_bind_pure, true_and]

/-- A decoder that the receiver has chosen ends inside the received bytes exactly if these
hold its fields. -/
theorem fromBufferAt_pos_le_iff (alloc : ℕ → Bool) (stack : ℕ → UInt8) (bytes : List UInt8)
    (t : MessageType) :
    ((fromBufferAt alloc t).run (stackMemory bytes stack) 8).pos ≤ bytes.length ↔
      HoldsFields alloc bytes t := by
  rw [fromBufferAt_pos, HoldsFields]
  by_cases hfix : 8 + fixedSize t ≤ bytes.length
  · rw [payloadSize_stackMemory stack hfix]
    split_ifs with ha
    · simp only [ha, hfix, true_implies, true_and, Nat.add_assoc]
    · simp [ha, hfix]
  · simp only [hfix, false_and, iff_false]
    omega

/-- A receiver stays inside a datagram exactly if it refuses the datagram or the datagram
holds its own fields. -/
theorem staysInside_iff (registered : List MessageType) (alloc : ℕ → Bool) (stack : ℕ → UInt8)
    (d : List UInt8) :
    StaysInside registered alloc stack d ↔ Contained registered alloc d := by
  have hcont : (∀ i ∈ (receiveDatagram registered alloc stack d).reads,
      i < (receiveFrom d).length) ↔
      (receiveDatagram registered alloc stack d).pos ≤ (receiveFrom d).length :=
    (contiguous_receiveAt registered alloc _).reads_lt_iff (Nat.zero_le _)
  rw [StaysInside, Contained, hcont]
  rcases Nat.lt_or_ge (receiveFrom d).length 8 with h8 | h8
  · simp [h8, receiveDatagram_short]
  rcases Nat.lt_or_ge (receiveFrom d).length (leNat ((receiveFrom d).take 4)) with hw | hw
  · have h4 : 4 ≤ (receiveFrom d).length := by omega
    simp [hw, receiveDatagram_mismatch h8 hw, h4]
  rcases receiveDatagram_typed registered alloc stack h8 hw with ⟨ht, hp, -⟩ | ⟨t, ht, hp, hv⟩
  · simp [ht, hp, h8]
  have hend := fromBufferAt_pos_le_iff alloc stack (receiveFrom d) t
  rw [hp, hend]
  constructor
  · rintro ⟨hin, -⟩
    refine .inr (.inr fun t' ht' => ?_)
    obtain rfl := Option.some.inj (ht.symm.trans ht')
    exact hin
  · rintro (h | h | h)
    · omega
    · omega
    refine ⟨h t ht, fun t' ht' hlong m => ?_⟩
    obtain rfl := Option.some.inj (ht.symm.trans ht')
    obtain ⟨hfix, hpay⟩ := h t ht
    -- the payload does not fit, so the allocator has refused it
    rw [payloadSize_stackMemory stack hfix] at hlong
    have ha : alloc (declaredPayload (receiveFrom d) t) = false := by
      by_contra hne
      have := hpay (by simpa using hne)
      omega
    have hval : ((fromBufferAt alloc t).run (stackMemory (receiveFrom d) stack) 8).value = none :=
      fromBufferAt_refused (by rw [payloadSize_stackMemory stack hfix]; omega)
        (by rw [payloadSize_stackMemory stack hfix]; exact ha)
    rw [hv, hval]
    simp

end Datagram

/-- A header alone, with a size word that tells the truth: both receivers decode fields that
never arrived. -/
theorem header_only_overread :
    ¬ StaysInside minionTypes (fun _ => true) (fun _ => 0) [8, 0, 0, 0, 0, 0, 0, 0] ∧
      ¬ StaysInside masterTypes (fun _ => true) (fun _ => 0) [8, 0, 0, 0, 3, 0, 0, 0] := by
  have hminion : ¬ ∀ i ∈ (receiveDatagram minionTypes (fun _ => true) (fun _ => 0)
      [8, 0, 0, 0, 0, 0, 0, 0]).reads, i < 8 := by decide +kernel
  have hmaster : ¬ ∀ i ∈ (receiveDatagram masterTypes (fun _ => true) (fun _ => 0)
      [8, 0, 0, 0, 3, 0, 0, 0]).reads, i < 8 := by decide +kernel
  exact ⟨fun h => hminion h.1, fun h => hmaster h.1⟩

/-! ### The receive path of `Message/Datagram` -/

/-- A decoder of byte strings does what the code behind a pointer does, cut off at the end
of the string. -/
structure Cuts {β : Type} (p : List UInt8 → Option (β × List UInt8)) (x : Reader UInt8 β) :
    Prop where
  contiguous : x.Contiguous
  eq : ∀ mem pos n, p (load mem pos n) = if (x.run mem pos).pos ≤ pos + n then
    (x.run mem pos).value.map fun v =>
      (v, load mem (x.run mem pos).pos (pos + n - (x.run mem pos).pos)) else none

section Cuts
variable {β γ : Type} {p : List UInt8 → Option (β × List UInt8)} {x : Reader UInt8 β}
  {q : β → List UInt8 → Option (γ × List UInt8)} {f : β → Reader UInt8 γ}

theorem cuts_pure (v : β) : Cuts (fun buf => some (v, buf)) (pure v) :=
  ⟨contiguous_pure v, fun mem pos n => by simp⟩

theorem cuts_block (k : ℕ) : Cuts (takeBytes k) (block k) := by
  refine ⟨contiguous_block k, fun mem pos n => ?_⟩
  simp only [takeBytes, load_length, block, Nat.add_le_add_iff_left]
  split_ifs with h
  · obtain ⟨r, rfl⟩ := Nat.exists_eq_add_of_le h
    rw [load_add, List.take_left' (load_length _ _ _), List.drop_left' (load_length _ _ _),
      Option.map_some, show pos + (k + r) - (pos + k) = r by omega]
  · rfl

theorem Cuts.bind (hp : Cuts p x) (hq : ∀ v, Cuts (q v) (f v)) :
    Cuts (fun buf => (p buf).bind fun w => q w.1 w.2) (x >>= f) := by
  refine ⟨hp.contiguous.bind fun v => (hq v).contiguous, fun mem pos n => ?_⟩
  have hfirst := hp.eq mem pos n
  show (p (load mem pos n)).bind _ = _
  rcases hrun : x.run mem pos with ⟨_ | v, e, r⟩
  · simp only [hrun, Option.map_none, ite_self] at hfirst
    simp [run_bind_of_none hrun, hfirst]
  · simp only [hrun, Option.map_some] at hfirst
    obtain ⟨k, hk, -⟩ := (hq v).contiguous mem e
    have hsecond := (hq v).eq mem e (pos + n - e)
    simp only [hk] at hsecond
    simp only [run_bind_of_some hrun, hfirst, hk]
    by_cases he : e ≤ pos + n
    · simp only [if_pos he, Option.bind_some, hsecond, Nat.add_sub_cancel' he]
    · rw [if_neg he, if_neg (by omega), Option.bind_none]

theorem cuts_word64 : Cuts takeU64 word64 := by
  refine ⟨contiguous_word64, fun mem pos n => ?_⟩
  have h := (cuts_block 8).eq mem pos n
  simp only [block, Option.map_some] at h
  simp only [takeU64, takeWord, h, word64, run_block_bind, run_pure]
  by_cases hn : 8 ≤ n <;> simp [hn]

/-- A payload at the end of a message, from an allocator that serves every size. -/
theorem cuts_payload (k : ℕ) (g : List UInt8 → β) :
    Cuts (fun buf => (takeBytes k buf).bind fun w => some (g w.1, w.2))
      (require true >>= fun _ => block k >>= fun data => pure (g data)) :=
  (cuts_block k).bind fun data => cuts_pure (g data)

theorem cuts_byte : Cuts takeU8 byte := by
  refine ⟨contiguous_byte, fun mem pos n => ?_⟩
  cases n with
  | zero => simp [load, takeU8, byte]
  | succ n =>
    have hn : pos + (n + 1) - (pos + 1) = n := by omega
    simp [load, takeU8, byte, List.range'_succ, hn]

end Cuts

/-- The decoder of byte strings is the one behind the pointer. -/
theorem cuts_fromBuffer (t : MessageType) :
    Cuts (fromBuffer t) (fromBufferAt (fun _ => true) t) := by
  cases t with
  | readSend =>
    exact cuts_word64.bind fun _ => cuts_word64.bind fun _ => cuts_word64.bind fun _ => cuts_pure _
  | writeSend =>
    exact cuts_word64.bind fun uid => cuts_word64.bind fun offset => cuts_word64.bind fun length =>
      cuts_payload ((length.toNat + 1) % 2 ^ 64) fun data =>
        AMessage.writeSend uid offset length (some data)
  | readReceive =>
    exact cuts_word64.bind fun uid => cuts_byte.bind fun result => cuts_word64.bind fun length =>
      cuts_payload length.toNat fun data => AMessage.readReceive uid result length (some data)
  | writeReceive => exact cuts_word64.bind fun _ => cuts_byte.bind fun _ => cuts_pure _

/-- A verdict as a receipt; a payload that is not allocated ends the receive loop. -/
def Receipt.ofVerdict : Option Verdict → Receipt
  | some .short => .short
  | some .mismatch => .mismatch
  | some .unknownType => .unknownType
  | some (.message m) => .message m
  | none => .fault

theorem append_stack_eq_load {bytes : List UInt8} {n : ℕ} (stack : ℕ → UInt8)
    (h : bytes.length ≤ n) :
    bytes ++ (List.range (n - bytes.length)).map stack = load (stackMemory bytes stack) 0 n := by
  symm
  apply load_eq_of_getElem?
  · simp; omega
  intro i hi
  rw [Nat.zero_add, stackMemory]
  by_cases hb : i < bytes.length
  · rw [List.getElem?_append_left hb, List.getElem?_eq_getElem hb, Option.getD_some]
  · rw [List.getElem?_append_right (by omega), List.getElem?_eq_none (by omega : bytes.length ≤ i),
      List.getElem?_map, List.getElem?_range (by omega)]
    rfl

/-- The receive path on byte strings: the one behind the pointer, as long as that stays in
the stack buffer. -/
theorem receive_eq (registered : List MessageType) (stack : ℕ → UInt8) (d : List UInt8) :
    receive registered stack d =
      if (receiveDatagram registered (fun _ => true) stack d).pos ≤ bufsiz then
        .ofVerdict (receiveDatagram registered (fun _ => true) stack d).value else .fault := by
  have hlen : (receiveFrom d).length ≤ bufsiz := by
    rw [receiveFrom, List.length_take]
    simp only [bufsiz]
    omega
  simp only [receive, append_stack_eq_load stack hlen]
  rcases Nat.lt_or_ge (receiveFrom d).length 8 with h8 | h8
  · simp [h8, receiveDatagram_short, Receipt.ofVerdict]
  have hdrop : ∀ k n, k + n = bufsiz → (load (stackMemory (receiveFrom d) stack) 0 bufsiz).drop k =
      load (stackMemory (receiveFrom d) stack) k n := by
    intro k n hk
    rw [← hk, load_add, List.drop_left' (load_length _ _ _), Nat.zero_add]
  have htake : ∀ k n, 4 ≤ n → (load (stackMemory (receiveFrom d) stack) k n).take 4 =
      load (stackMemory (receiveFrom d) stack) k 4 := by
    intro k n hn
    obtain ⟨r, rfl⟩ := Nat.exists_eq_add_of_le hn
    rw [load_add, List.take_left' (load_length _ _ _)]
  rw [if_neg (Nat.not_lt.mpr h8), htake 0 bufsiz (by decide), hdrop 4 (bufsiz - 4) (by decide),
    htake 4 (bufsiz - 4) (by decide), hdrop 8 (bufsiz - 8) (by decide),
    load_stackMemory stack (show 0 + 4 ≤ _ by omega),
    load_stackMemory stack (show 4 + 4 ≤ _ by omega), List.drop_zero]
  rcases Nat.lt_or_ge (receiveFrom d).length (leNat ((receiveFrom d).take 4)) with hw | hw
  · rw [if_pos hw, receiveDatagram_mismatch h8 hw, if_pos (by decide)]
    rfl
  rw [if_neg (Nat.not_lt.mpr hw)]
  rcases receiveDatagram_typed registered (fun _ => true) stack h8 hw with
    ⟨ht, hp, hv⟩ | ⟨t, ht, hp, hv⟩
  · rw [typeOf] at ht
    rw [ht, hp, hv, if_pos (by decide)]
    rfl
  · rw [typeOf] at ht
    have hcut := (cuts_fromBuffer t).eq (stackMemory (receiveFrom d) stack) 8 (bufsiz - 8)
    rw [ht, hp, hv]
    simp only [hcut]
    rw [Nat.add_sub_cancel' (show 8 ≤ bufsiz by decide)]
    split_ifs with hend
    · cases ((fromBufferAt (fun _ => true) t).run (stackMemory (receiveFrom d) stack) 8).value <;>
        rfl
    · rfl

/-! ### What decides a receipt -/

section Receipt
variable {d : List UInt8}

/-- The UID word behind the header. -/
def uidWord (bytes : List UInt8) (stack : ℕ → UInt8) : UID :=
  UInt64.ofNat (leNat (load (stackMemory bytes stack) 8 8))

theorem fromBufferAt_value (t : MessageType) (mem : ℕ → UInt8) (pos : ℕ) :
    ∃ m, ((fromBufferAt (fun _ => true) t).run mem pos).value = some m ∧
      m.getMessageType = t ∧ m.getUID = UInt64.ofNat (leNat (load mem pos 8)) := by
  cases t <;> exact ⟨_, rfl, rfl, rfl⟩

theorem receive_short (h : (receiveFrom d).length < 8) :
    receive registered stack d = .short := by
  simp only [receive, if_pos h]

theorem receive_mismatch (h : 8 ≤ (receiveFrom d).length)
    (hw : (receiveFrom d).length < leNat ((receiveFrom d).take 4)) :
    receive registered stack d = .mismatch := by
  rw [receive_eq, receiveDatagram_mismatch h hw, if_pos (by decide)]
  rfl

theorem receive_unknownType (h : 8 ≤ (receiveFrom d).length)
    (hw : leNat ((receiveFrom d).take 4) ≤ (receiveFrom d).length)
    (ht : typeOf registered (receiveFrom d) = none) :
    receive registered stack d = .unknownType := by
  rcases receiveDatagram_typed registered (fun _ => true) stack h hw with
    ⟨-, hp, hv⟩ | ⟨t, ht', -⟩
  · rw [receive_eq, hp, hv, if_pos (by decide)]
    rfl
  · rw [ht] at ht'
    cases ht'

/-- Past the header checks a datagram of a registered type becomes a message under its UID
word, or the decoder leaves the stack buffer. -/
theorem receive_typed (stack : ℕ → UInt8) (h : 8 ≤ (receiveFrom d).length)
    (hw : leNat ((receiveFrom d).take 4) ≤ (receiveFrom d).length)
    (ht : typeOf registered (receiveFrom d) = some t) :
    (8 + fixedSize t + payloadSize (stackMemory (receiveFrom d) stack) 8 t ≤ bufsiz ∧
      ∃ m, receive registered stack d = .message m ∧ m.getMessageType = t ∧
        m.getUID = uidWord (receiveFrom d) stack) ∨
    (bufsiz < 8 + fixedSize t + payloadSize (stackMemory (receiveFrom d) stack) 8 t ∧
      receive registered stack d = .fault) := by
  rcases receiveDatagram_typed registered (fun _ => true) stack h hw with
    ⟨ht', -⟩ | ⟨t', ht', hp, hv⟩
  · rw [ht] at ht'
    cases ht'
  obtain rfl := Option.some.inj (ht.symm.trans ht')
  obtain ⟨m, hm, htype, huid⟩ := fromBufferAt_value t (stackMemory (receiveFrom d) stack) 8
  rw [fromBufferAt_pos, if_pos rfl, ← Nat.add_assoc] at hp
  rw [receive_eq, hp, hv, hm]
  rcases Nat.lt_or_ge bufsiz
    (8 + fixedSize t + payloadSize (stackMemory (receiveFrom d) stack) 8 t) with hlt | hle
  · exact .inr ⟨hlt, if_neg (Nat.not_le.mpr hlt)⟩
  · exact .inl ⟨hle, m, if_pos hle, htype, huid⟩

end Receipt

end IoTDrive.Message
