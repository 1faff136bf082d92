import IoTDrive.Master.FanOut
import IoTDrive.Message.Encoder
import IoTDrive.Minion.Commands

/-! Requests and answers at both ends of the channel. For one segment of a request the
master sends a datagram, the minion decodes it into task arguments, runs the
command and answers, and the master decodes the answer. Both decodings succeed
and return what was sent exactly for segments whose messages fit the receive
buffer: the sender allocates what a message needs, the receivers use a fixed
buffer. -/

namespace IoTDrive.Master

open Lib Message Minion Stripe

/-- The longest segment whose request and answer fit the receive buffer. -/
def maxLength : TicketOp → ℕ
  | .read => maxReadLength
  | .write => maxWriteLength

/-- Task arguments of the request's kind with its UID, offset, length and data. -/
def ArgsMatch (op : TicketOp) (uid : UID) (data : List UInt8) (s : StripeSegment)
    (a : MinionArgs) : Prop :=
  match op with
  | .read => a = .read uid s.localOffset s.length
  | .write => ∃ buf, a = .write uid s.localOffset s.length buf ∧ buf.take s.length = slice data s

/-- The request of a segment is accepted by the minion as what it is, and the answer is
accepted by the master as what was answered. The memory around the messages and
the minion's file are arbitrary. -/
def Agrees (op : TicketOp) (uid : UID) (data : List UInt8) (s : StripeSegment)
    (beyond stack heap stack' : ℕ → UInt8) (f : FileManager) : Prop :=
  ∃ d a f' reply ans, (segmentMessage op uid data s).datagram beyond = some d ∧
    getTaskArgs stack d = .args a ∧ ArgsMatch op uid data s a ∧
    runTask heap f a = (f', some reply) ∧ reply.datagram heap = some ans ∧
    receive masterTypes stack' ans = .message reply

/-- What a segment on the drive says about its words. -/
structure SegmentWords (s : StripeSegment) : Prop where
  offset_eq : (UInt64.ofNat s.localOffset).toNat = s.localOffset
  length_eq : (UInt64.ofNat s.length).toNat = s.length

theorem segmentWords {M : MinionManager} {offset length : ℕ} (h : M.InRange offset length)
    {s : StripeSegment} (hs : s ∈ M.segments offset length) : SegmentWords s := by
  have hseg := (MinionManager.segments_mem h hs).1
  have hfits := hseg.fits
  have hlt : M.mbMinion < UInt64.size := M.mb_lt
  exact ⟨UInt64.toNat_ofNat_of_lt' (by omega), UInt64.toNat_ofNat_of_lt' (by omega)⟩

theorem slice_length {data : List UInt8} {s : StripeSegment}
    (h : s.bufferOffset + s.length ≤ data.length) : (slice data s).length = s.length := by
  simp [slice]
  omega

/-- The answer to a read is as long as the read, whatever the file does. -/
theorem runTask_read_reply (heap : ℕ → UInt8) (f : FileManager) (uid : UID) (offset : ℕ)
    {length : ℕ} (h : (UInt64.ofNat length).toNat = length) :
    ∃ f' r buf, runTask heap f (.read uid offset length) =
        (f', some (.readReceive uid r (UInt64.ofNat length) (some buf))) ∧
      (AMessage.readReceive uid r (UInt64.ofNat length) (some buf)).PayloadFits := by
  refine ⟨_, _, _, rfl, _, rfl, ?_⟩
  rw [h]
  exact memRead_length _ _ _

section Segment
variable {uid : UID} {data : List UInt8} {s : StripeSegment} (hw : SegmentWords s)
  (beyond stack heap stack' : ℕ → UInt8) (f : FileManager)
include hw

theorem segmentMessage_payloadFits {op : TicketOp}
    (hlen : op = .write → (slice data s).length = s.length) :
    (segmentMessage op uid data s).PayloadFits := by
  cases op with
  | read => trivial
  | write =>
    refine ⟨slice data s, rfl, ?_⟩
    rw [hw.length_eq]
    exact hlen rfl

theorem agrees_read_of_le (hl : s.length ≤ maxReadLength) :
    Agrees .read uid data s beyond stack heap stack' f := by
  obtain ⟨d, hd, -⟩ := receive_datagram minionTypes (segmentMessage .read uid data s) beyond
    (by simp [minionTypes, segmentMessage, AMessage.getMessageType]) trivial
    (by simp [segmentMessage, AMessage.wireSize, bufsiz])
  have hargs := getTaskArgs_readSend hd stack
  rw [hw.offset_eq, hw.length_eq] at hargs
  obtain ⟨f', r, buf, hrun, hfit⟩ := runTask_read_reply heap f uid s.localOffset hw.length_eq
  obtain ⟨ans, hans, hrec⟩ := receive_datagram masterTypes _ heap
    (by simp [masterTypes, AMessage.getMessageType]) hfit (by
      simp only [AMessage.wireSize, hw.length_eq, maxReadLength, bufsiz] at hl ⊢
      omega)
  exact ⟨d, _, f', _, ans, hd, hargs, rfl, hrun, hans, hrec stack'⟩

theorem agrees_write_of_le (hlen : (slice data s).length = s.length)
    (hl : s.length ≤ maxWriteLength) :
    Agrees .write uid data s beyond stack heap stack' f := by
  have hfit : (segmentMessage .write uid data s).PayloadFits :=
    segmentMessage_payloadFits hw fun _ => hlen
  obtain ⟨d, hd, -⟩ := receive_datagram minionTypes _ beyond
    (by simp [minionTypes, segmentMessage, AMessage.getMessageType]) hfit (by
      simp only [segmentMessage, AMessage.wireSize, hw.length_eq, maxWriteLength, bufsiz] at hl ⊢
      omega)
  have hargs := getTaskArgs_writeSend
    (show (slice data s).length = _ by rw [hw.length_eq]; exact hlen)
    (by omega) hd stack
  rw [hw.offset_eq, hw.length_eq] at hargs
  obtain ⟨ans, hans, hrec⟩ := receive_datagram masterTypes
    (.writeReceive uid (resultByte (f.writeToFile s.localOffset s.length
      (slice data s ++ [beyond (slice data s).length]) heap).2)) heap
    (by simp [masterTypes, AMessage.getMessageType]) trivial (by simp [AMessage.wireSize, bufsiz])
  exact ⟨d, _, _, _, ans, hd, hargs, ⟨_, rfl, List.take_left' hlen⟩, rfl, hans, hrec stack'⟩

variable {beyond stack heap stack' f}

/-- A longer read is answered by a datagram the master drops. -/
theorem le_of_agrees_read (h : Agrees .read uid data s beyond stack heap stack' f) :
    s.length ≤ maxReadLength := by
  obtain ⟨d, a, f', reply, ans, -, -, rfl, hrun, hans, hrec⟩ := h
  obtain ⟨g, r, buf, hrun', hfit⟩ := runTask_read_reply heap f uid s.localOffset hw.length_eq
  rw [hrun', Prod.mk.injEq, Option.some.injEq] at hrun
  obtain ⟨-, rfl⟩ := hrun
  have hbuf : buf.length = s.length := by
    obtain ⟨b, hb, hl⟩ := hfit
    rw [hw.length_eq] at hl
    rwa [Option.some.inj hb]
  by_contra hgt
  rcases Nat.lt_or_ge bufsiz s.length with hbig | hsmall
  · have := receive_getData_length hrec (b := buf) rfl
    omega
  · simp only [maxReadLength, bufsiz] at hgt hsmall
    obtain ⟨ans', hans', hmis⟩ := receive_oversize masterTypes heap hfit
      (by simp only [AMessage.wireSize, hw.length_eq, bufsiz]; omega)
      (by simp only [AMessage.wireSize, hw.length_eq]; omega)
    obtain rfl : ans = ans' := Option.some.inj (hans.symm.trans hans')
    rw [hmis] at hrec
    cases hrec

/-- A longer write is a datagram the minion refuses. -/
theorem getTaskArgs_oversize {beyond : ℕ → UInt8} (hlen : (slice data s).length = s.length)
    (hgt : maxWriteLength < s.length) (hlt : s.length < 2 ^ 32) {d : List UInt8}
    (hd : (segmentMessage .write uid data s).datagram beyond = some d) (stack : ℕ → UInt8) :
    getTaskArgs stack d = .refused := by
  have hfit : (segmentMessage .write uid data s).PayloadFits :=
    segmentMessage_payloadFits hw fun _ => hlen
  have hsize : (segmentMessage .write uid data s).wireSize = s.length + 33 := by
    simp only [segmentMessage, AMessage.wireSize, hw.length_eq]
    omega
  obtain ⟨d', hd', hmis⟩ := receive_oversize minionTypes beyond hfit
    (by simp only [maxWriteLength, bufsiz] at hgt; rw [hsize, bufsiz]; omega)
    (wireSize_lt_of_datagram hd (by omega))
  obtain rfl : d = d' := Option.some.inj (hd.symm.trans hd')
  simp [getTaskArgs, hmis]

/-- A longer write is a datagram the minion drops. -/
theorem le_of_agrees_write (hlen : (slice data s).length = s.length)
    (h : Agrees .write uid data s beyond stack heap stack' f) : s.length ≤ maxWriteLength := by
  obtain ⟨d, a, f', reply, ans, hd, hargs, ⟨buf, rfl, hbuf⟩, -, -, -⟩ := h
  by_contra hgt
  rcases Nat.lt_or_ge bufsiz s.length with hbig | hsmall
  · -- no decoded payload is this long
    have hle : buf.length ≤ bufsiz := by
      obtain ⟨m, hr, rfl⟩ := getTaskArgs_buffer hargs
      cases hdata : m.getData with
      | none => exact Nat.zero_le _
      | some b => exact receive_getData_length hr hdata
    have := congrArg List.length hbuf
    rw [hlen, List.length_take] at this
    omega
  · simp only [bufsiz] at hsmall
    rw [getTaskArgs_oversize hw hlen (Nat.lt_of_not_le hgt) (by omega) hd] at hargs
    cases hargs

/-- The answer to a read has the UID of the request and fits the size word. The master decodes
it if it fits the receive buffer, and drops it if not. -/
theorem answer_read {d bytes : List UInt8} {m : AMessage}
    (hd : (segmentMessage .read uid data s).datagram beyond = some d)
    (h : answer stack heap f d = some (m, bytes)) :
    m.getUID = uid ∧ 25 + s.length < 2 ^ 32 ∧ ∀ stack', receive masterTypes stack' bytes =
      if s.length ≤ maxReadLength then .message m else .mismatch := by
  have hargs := getTaskArgs_readSend hd stack
  rw [hw.offset_eq, hw.length_eq] at hargs
  obtain ⟨g, r, buf, hrun, hfit⟩ := runTask_read_reply heap f uid s.localOffset hw.length_eq
  simp only [answer, hargs, hrun, Option.bind_some] at h
  obtain ⟨bytes', hbytes, hpair⟩ := Option.map_eq_some_iff.mp h
  obtain ⟨rfl, rfl⟩ := Prod.mk.inj hpair
  have hsize := AMessage.storeCount_of_datagram hbytes
  simp only [AMessage.storeCount, hw.length_eq] at hsize
  refine ⟨rfl, hsize, fun stack' => ?_⟩
  split_ifs with hl
  · obtain ⟨ans, hans, hrec⟩ := receive_datagram masterTypes _ heap
      (by simp [masterTypes, AMessage.getMessageType]) hfit (by
        simp only [AMessage.wireSize, hw.length_eq, maxReadLength, bufsiz] at hl ⊢
        omega)
    obtain rfl : ans = bytes' := Option.some.inj (hans.symm.trans hbytes)
    exact hrec stack'
  · obtain ⟨ans, hans, hmis⟩ := receive_oversize masterTypes heap hfit
      (by simp only [AMessage.wireSize, hw.length_eq, maxReadLength, bufsiz] at hl ⊢; omega)
      (by simp only [AMessage.wireSize, hw.length_eq]; omega)
    obtain rfl : ans = bytes' := Option.some.inj (hans.symm.trans hbytes)
    exact hmis stack'

/-- A read of the minion's file is answered with success. -/
theorem answer_read_result {size : ℕ} (hf : f.Serves size)
    (hin : s.localOffset + s.length ≤ size) {d bytes : List UInt8} {m : AMessage}
    (hd : (segmentMessage .read uid data s).datagram beyond = some d)
    (h : answer stack heap f d = some (m, bytes)) : m.getResult = true := by
  have hargs := getTaskArgs_readSend hd stack
  rw [hw.offset_eq, hw.length_eq] at hargs
  simp only [answer, hargs, runTask_read hf hin, Option.bind_some] at h
  obtain ⟨bytes', -, hpair⟩ := Option.map_eq_some_iff.mp h
  obtain ⟨rfl, -⟩ := Prod.mk.inj hpair
  rfl

/-- What the minion decodes from a write whose payload fits the receive buffer. -/
theorem getTaskArgs_write (hlen : (slice data s).length = s.length)
    (hle : (s.length + 1) % 2 ^ 64 ≤ maxWriteLength + 1) {d : List UInt8}
    (hd : (segmentMessage .write uid data s).datagram beyond = some d) (stack : ℕ → UInt8) :
    ∃ buffer, getTaskArgs stack d = .args (.write uid s.localOffset s.length buffer) := by
  have hlt := (UInt64.ofNat s.length).toNat_lt
  rw [hw.length_eq] at hlt
  rcases Nat.lt_or_ge (s.length + 1) (2 ^ 64) with hno | hwrap
  · have hargs := getTaskArgs_writeSend
      (show (slice data s).length = _ by rw [hw.length_eq]; exact hlen) (by omega) hd stack
    rw [hw.offset_eq, hw.length_eq] at hargs
    exact ⟨_, hargs⟩
  · have hargs := getTaskArgs_writeSend_wrapped (by rw [hw.length_eq]; omega) hd stack
    rw [hw.offset_eq, hw.length_eq] at hargs
    exact ⟨_, hargs⟩

/-- Only a write that the minion decodes is answered. The answer has the UID of the request,
and the master decodes it. -/
theorem answer_write (hlen : (slice data s).length = s.length) {d bytes : List UInt8}
    {m : AMessage} (hd : (segmentMessage .write uid data s).datagram beyond = some d)
    (h : answer stack heap f d = some (m, bytes)) :
    m.getUID = uid ∧ (s.length + 1) % 2 ^ 64 ≤ maxWriteLength + 1 ∧
      ∀ stack', receive masterTypes stack' bytes = .message m := by
  have hle : (s.length + 1) % 2 ^ 64 ≤ maxWriteLength + 1 := by
    by_contra hbig
    have hsize := AMessage.storeCount_of_datagram hd
    have hlt := (UInt64.ofNat s.length).toNat_lt
    simp only [segmentMessage, AMessage.storeCount, hw.length_eq] at hsize hlt
    rw [answer, getTaskArgs_oversize hw hlen (by omega) (by omega) hd] at h
    cases h
  obtain ⟨buffer, hargs⟩ := getTaskArgs_write hw hlen hle hd stack
  simp only [answer, hargs, runTask, MinionArgs.getKey, createCommand, runCommand,
    Option.bind_some] at h
  obtain ⟨bytes', hbytes, hpair⟩ := Option.map_eq_some_iff.mp h
  obtain ⟨rfl, rfl⟩ := Prod.mk.inj hpair
  obtain ⟨ans, hans, hrec⟩ := receive_datagram masterTypes (.writeReceive uid
    (resultByte (f.writeToFile s.localOffset s.length buffer heap).2)) heap
    (by simp [masterTypes, AMessage.getMessageType]) trivial (by simp [AMessage.wireSize, bufsiz])
  obtain rfl : ans = bytes' := Option.some.inj (hans.symm.trans hbytes)
  exact ⟨rfl, hle, hrec⟩

/-- Whatever a minion answers to the datagram of a segment, the master decodes it to a
message with the UID of the request. -/
theorem serve_answer {op : TicketOp} (hlen : op = .write → (slice data s).length = s.length)
    (hl : op = .read → s.length ≤ maxReadLength) {d ans : List UInt8} {f' : FileManager}
    (hd : (segmentMessage op uid data s).datagram beyond = some d)
    (h : serve stack heap f d = some (f', some ans)) :
    ∃ reply, reply.getUID = uid ∧ ∀ stack', receive masterTypes stack' ans = .message reply := by
  obtain ⟨reply, hreply⟩ := exists_answer_iff.mpr ⟨f', h⟩
  cases op with
  | read =>
    obtain ⟨huid, -, hrec⟩ := answer_read hw hd hreply
    simp only [if_pos (hl rfl)] at hrec
    exact ⟨reply, huid, hrec⟩
  | write =>
    obtain ⟨huid, -, hrec⟩ := answer_write hw (hlen rfl) hd hreply
    exact ⟨reply, huid, hrec⟩

/-! ### Which requests are answered -/

omit hw in
/-- The requests that a minion answers: reads whose answer fits the size word, and writes whose
payload fits the receive buffer. The number of payload bytes wraps as the encoder's does. -/
def Answerable : TicketOp → StripeSegment → Prop
  | .read, s => 25 + s.length < 2 ^ 32
  | .write, s => (s.length + 1) % 2 ^ 64 ≤ maxWriteLength + 1

instance : (op : TicketOp) → (s : StripeSegment) → Decidable (Answerable op s)
  | .read, _ => inferInstanceAs (Decidable (_ < _))
  | .write, _ => inferInstanceAs (Decidable (_ ≤ _))

variable (uid) in
/-- Such a request is answered, whatever the memory and the file. -/
theorem exists_answer {op : TicketOp} (hlen : op = .write → (slice data s).length = s.length)
    (h : Answerable op s) (beyond stack heap : ℕ → UInt8) (f : FileManager) :
    ∃ d m bytes, (segmentMessage op uid data s).datagram beyond = some d ∧
      answer stack heap f d = some (m, bytes) := by
  cases op with
  | read =>
    obtain ⟨d, hd, -⟩ := receive_datagram minionTypes (segmentMessage .read uid data s) beyond
      (by simp [minionTypes, segmentMessage, AMessage.getMessageType]) trivial
      (by simp [segmentMessage, AMessage.wireSize, bufsiz])
    have hargs := getTaskArgs_readSend hd stack
    rw [hw.offset_eq, hw.length_eq] at hargs
    obtain ⟨g, r, buf, hrun, hfit⟩ := runTask_read_reply heap f uid s.localOffset hw.length_eq
    obtain ⟨b, -, -, hans⟩ := datagram_eq heap hfit
      (by simp only [AMessage.wireSize, hw.length_eq]; exact h)
    exact ⟨d, _, _, hd, by simp only [answer, hargs, hrun, Option.bind_some, hans]; rfl⟩
  | write =>
    have hle : (s.length + 1) % 2 ^ 64 ≤ maxWriteLength + 1 := h
    have hsize : (segmentMessage .write uid data s).storeCount =
        (segmentMessage .write uid data s).getSize := by
      simp only [segmentMessage, AMessage.storeCount, AMessage.getSize, AMessage.wireSize,
        hw.length_eq]
      simp only [maxWriteLength, bufsiz] at hle
      omega
    obtain ⟨d, hd⟩ : ∃ d, (segmentMessage .write uid data s).datagram beyond = some d :=
      AMessage.exists_datagram rfl hsize
    obtain ⟨buffer, hargs⟩ := getTaskArgs_write hw (hlen rfl) hle hd stack
    have hreply : ∃ r, (runTask heap f (.write uid s.localOffset s.length buffer)).2 =
        some (.writeReceive uid r) := ⟨_, rfl⟩
    obtain ⟨r, hreply⟩ := hreply
    obtain ⟨bytes, hbytes, -⟩ := receive_datagram masterTypes (.writeReceive uid r) heap
      (by simp [masterTypes, AMessage.getMessageType]) trivial (by simp [AMessage.wireSize, bufsiz])
    refine ⟨d, .writeReceive uid r, bytes, hd, ?_⟩
    rw [answer, hargs]
    simp only [hreply, Option.bind_some, hbytes, Option.map_some]

end Segment

/-- The data of a write holds the bytes its segments cut out. -/
theorem slice_length_of_mem {M : MinionManager} {offset length : ℕ} (h : M.InRange offset length)
    {data : List UInt8} (hdata : data.length = length) {s : StripeSegment}
    (hs : s ∈ M.segments offset length) : (slice data s).length = s.length :=
  slice_length (by have := (MinionManager.segments_mem h hs).1.within; omega)

theorem agrees_iff {M : MinionManager} {offset length : ℕ} (h : M.InRange offset length)
    {op : TicketOp} {data : List UInt8} (hdata : op = .write → data.length = length)
    {s : StripeSegment} (hs : s ∈ M.segments offset length) (uid : UID)
    (beyond stack heap stack' : ℕ → UInt8) (f : FileManager) :
    Agrees op uid data s beyond stack heap stack' f ↔ s.length ≤ maxLength op := by
  have hw := segmentWords h hs
  cases op with
  | read => exact ⟨le_of_agrees_read hw, agrees_read_of_le hw beyond stack heap stack' f⟩
  | write =>
    have hlen := slice_length_of_mem h (hdata rfl) hs
    exact ⟨le_of_agrees_write hw hlen, agrees_write_of_le hw beyond stack heap stack' f hlen⟩

/-- For every request on the drive and every segment of it, the datagrams of request and
answer agree at both ends exactly when the segment is no longer than what the
receive buffer leaves for the data. -/
theorem datagrams_agree_iff (M : MinionManager) (offset length : ℕ)
    (h : M.InRange offset length) (op : TicketOp) (data : List UInt8)
    (hdata : op = .write → data.length = length) :
    ∀ s ∈ M.segments offset length, ∀ uid beyond stack heap stack' f,
      Agrees op uid data s beyond stack heap stack' f ↔ s.length ≤ maxLength op :=
  fun _ hs uid beyond stack heap stack' f => agrees_iff h hdata hs uid beyond stack heap stack' f

/-- A write of 4 KiB to the three-minion drive is carried. -/
theorem datagrams_agree_page :
    MinionManager.threeMinions.InRange 0 4096 ∧
      ∀ s ∈ MinionManager.threeMinions.segments 0 4096,
        Agrees .write 5 (List.replicate 4096 7) s (fun _ => 0) (fun _ => 0) (fun _ => 0)
          (fun _ => 0) (FileManager.init [] MinionManager.threeMinions.mbMinion
            MinionManager.threeMinions.mb_pos) := by
  have h : MinionManager.threeMinions.InRange 0 4096 := by decide
  have hseg : ∀ s ∈ MinionManager.threeMinions.segments 0 4096, s.length ≤ maxLength .write := by
    decide +kernel
  exact ⟨h, fun s hs => (datagrams_agree_iff _ 0 4096 h .write (List.replicate 4096 7)
    (fun _ => List.length_replicate) s hs 5 _ _ _ _ _).mpr (hseg s hs)⟩

/-- A write of 8159 bytes inside the first chunk is sent as one datagram of 8192 bytes,
which the minion drops. -/
theorem datagram_one_byte_too_long :
    MinionManager.threeMinions.InRange 0 8159 ∧
      ∃ s ∈ MinionManager.threeMinions.segments 0 8159,
        ¬ Agrees .write 0 (List.replicate 8159 7) s (fun _ => 0) (fun _ => 0) (fun _ => 0)
          (fun _ => 0) (FileManager.init [] MinionManager.threeMinions.mbMinion
            MinionManager.threeMinions.mb_pos) := by
  have h : MinionManager.threeMinions.InRange 0 8159 := by decide
  have hs : (⟨0, 8159, 0, 0, 1⟩ : StripeSegment) ∈
      MinionManager.threeMinions.segments 0 8159 := by decide +kernel
  exact ⟨h, _, hs, fun ha => absurd ((agrees_iff h (fun _ => List.length_replicate) hs 0
    _ _ _ _ _).mp ha) (by decide)⟩

/-! ### Inside the buffers of the encoders -/

/-- The encoder of a write request reads past its slice, that of a read request stays inside;
a chunk of all 64-bit addresses apart. -/
theorem request_encodesInside_iff {M : MinionManager} (hm : M.mbMinion + 1 < sizeMod)
    {offset length : ℕ} (h : M.InRange offset length) {op : TicketOp} {data : List UInt8}
    (hdata : op = .write → data.length = length) {uid : UID} {o : SendOp}
    (ho : o ∈ fanOut op uid data (M.segments offset length)) :
    o.message.EncodesInside ↔ op = .read := by
  obtain ⟨s, hs, -, hmessage⟩ := mem_fanOut.mp ho
  have hmem := List.mem_of_getElem? hs
  have hw := segmentWords h hmem
  have hfit : (segmentMessage op uid data s).PayloadFits :=
    segmentMessage_payloadFits hw fun hop => slice_length_of_mem h (hdata hop) hmem
  rw [hmessage, AMessage.encodesInside_iff_counts, hfit.counts_iff]
  cases op with
  | read => simp [segmentMessage, AMessage.Encodable]
  | write =>
    have hfits := (MinionManager.segments_mem h hmem).1.fits
    simp only [segmentMessage, AMessage.Encodable, hw.length_eq, reduceCtorEq, iff_false]
    simp only [sizeMod] at hm
    omega

/-- The encoder of an answer stays inside, unless it answers a read of four gigabytes or
more, less the header. -/
theorem answer_encodesInside_iff {heap : ℕ → UInt8} {f f' : FileManager} {a : MinionArgs}
    {m : AMessage} (h : runTask heap f a = (f', some m))
    (hlt : ∀ uid offset length, a = .read uid offset length → length < sizeMod) :
    m.EncodesInside ↔ ∀ uid offset length, a = .read uid offset length → 25 + length < 2 ^ 32 := by
  rw [AMessage.encodesInside_iff_counts]
  cases a with
  | read uid offset length =>
    have hlen : (UInt64.ofNat length).toNat = length :=
      UInt64.toNat_ofNat_of_lt' (hlt uid offset length rfl)
    obtain ⟨g, r, buf, hrun, hfit⟩ := runTask_read_reply heap f uid offset hlen
    rw [hrun, Prod.mk.injEq, Option.some.injEq] at h
    obtain ⟨-, rfl⟩ := h
    rw [hfit.counts_iff]
    simp only [AMessage.Encodable, hlen, MinionArgs.read.injEq]
    constructor
    · rintro hle _ _ _ ⟨rfl, rfl, rfl⟩
      exact hle
    · intro hle
      exact hle uid offset length ⟨rfl, rfl, rfl⟩
  | write uid offset length buffer =>
    have hm : m = .writeReceive uid (resultByte (f.writeToFile offset length buffer heap).2) :=
      (Option.some.inj (congrArg Prod.snd h)).symm
    have hfit : m.PayloadFits := by
      rw [hm]
      trivial
    rw [hfit.counts_iff, hm]
    simp [AMessage.Encodable]

end IoTDrive.Master
