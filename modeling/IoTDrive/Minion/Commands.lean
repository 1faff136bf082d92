import IoTDrive.Message.Datagram
import IoTDrive.Minion.File

/-! A minion serving one datagram: `MasterProxy::GetTaskArgs` turns it into task
arguments, the framework creates the command for their key, and the command
accesses the file and answers with the UID of the request. The answer goes back to
the sender of the last datagram received; with one master that is the proxy that
sent the request. -/

namespace IoTDrive.Minion

open Lib Message

/-- `MinionReadArgs` and `MinionWriteArgs`. The payload of a decoded write request is
never null. -/
inductive MinionArgs where
  | read (uid : UID) (offset length : ℕ)
  | write (uid : UID) (offset length : ℕ) (buffer : List UInt8)
  deriving DecidableEq, Repr

/-- `GetTaskArgs`: the arguments, a null pointer for a refused datagram, or the end of
the receive loop (an exception no one catches, or a read outside the buffer). -/
inductive TaskReceipt where
  | args (a : MinionArgs)
  | refused
  | crash
  deriving DecidableEq, Repr

def getTaskArgs (stack : ℕ → UInt8) (d : List UInt8) : TaskReceipt :=
  match receive minionTypes stack d with
  | .message m =>
    match m.getMessageType with
    | .readSend => .args (.read m.getUID m.getOffset.toNat m.getLength.toNat)
    | .writeSend =>
      .args (.write m.getUID m.getOffset.toNat m.getLength.toNat (m.getData.getD []))
    | _ => .crash
  | .short => .refused
  | .mismatch => .refused
  | .unknownType => .crash
  | .fault => .crash

/-- `GetKey`, a value of `enum FDMODE`. -/
def MinionArgs.getKey : MinionArgs → ℕ
  | .read .. => 1
  | .write .. => 0

inductive Command where
  | minionRead | minionWrite
  deriving DecidableEq, Repr

/-- The creators that the minion's entry point registers. -/
def createCommand : ℕ → Option Command
  | 0 => some .minionWrite
  | 1 => some .minionRead
  | _ => none

/-- A `bool` stored in the `uint8_t` of an answer. -/
def resultByte (b : Bool) : UInt8 := if b then 1 else 0

/-- `MinionReadCommand::Run` and `MinionWriteCommand::Run`: the file and the answer. A
command that finds arguments of the other kind logs and answers nothing. -/
def runCommand (heap : ℕ → UInt8) (f : FileManager) : Command → MinionArgs →
    FileManager × Option AMessage
  | .minionRead, .read uid offset length =>
    let (f', result, data) := f.readFromFile offset length heap
    (f', some (.readReceive uid (resultByte result) (UInt64.ofNat length) (some data)))
  | .minionWrite, .write uid offset length buffer =>
    let (f', result) := f.writeToFile offset length buffer heap
    (f', some (.writeReceive uid (resultByte result)))
  | _, _ => (f, none)

/-- `FW_TPTask::Run`; a key without a creator is an exception that is caught there. -/
def runTask (heap : ℕ → UInt8) (f : FileManager) (a : MinionArgs) :
    FileManager × Option AMessage :=
  match createCommand a.getKey with
  | some c => runCommand heap f c a
  | none => (f, none)

/-- One datagram at a minion: the file afterwards and the answer datagram, if one is
sent. `none` is a minion that no longer runs. -/
def serve (stack heap : ℕ → UInt8) (f : FileManager) (d : List UInt8) :
    Option (FileManager × Option (List UInt8)) :=
  match getTaskArgs stack d with
  | .refused => some (f, none)
  | .crash => none
  | .args a =>
    match runTask heap f a with
    | (f', none) => some (f', none)
    | (f', some msg) => (msg.datagram heap).map fun bytes => (f', some bytes)

/-- What a minion answers to one datagram: the message of its command and the bytes it sends. -/
def answer (stack heap : ℕ → UInt8) (f : FileManager) (d : List UInt8) :
    Option (AMessage × List UInt8) :=
  match getTaskArgs stack d with
  | .refused => none
  | .crash => none
  | .args a => (runTask heap f a).2.bind fun msg => (msg.datagram heap).map fun bytes => (msg, bytes)

/-- These are the bytes that `serve` sends. -/
theorem exists_answer_iff {stack heap : ℕ → UInt8} {f : FileManager} {d bytes : List UInt8} :
    (∃ msg, answer stack heap f d = some (msg, bytes)) ↔
      ∃ f', serve stack heap f d = some (f', some bytes) := by
  unfold answer serve
  cases getTaskArgs stack d with
  | refused => simp
  | crash => simp
  | args a =>
    rcases h : runTask heap f a with ⟨f', _ | msg⟩
    · simp [h]
    · simp [h]

/-! ### Requests of the master -/

/-- The longest segments whose messages fit the receive buffer: a write request carries
the data and 33 bytes, the answer to a read carries the data and 25. -/
def maxWriteLength : ℕ := bufsiz - 1 - 33

def maxReadLength : ℕ := bufsiz - 1 - 25

/-- What a write task writes is the payload of the decoded message. -/
theorem getTaskArgs_buffer {stack : ℕ → UInt8} {d buffer : List UInt8} {uid : UID}
    {offset length : ℕ} (h : getTaskArgs stack d = .args (.write uid offset length buffer)) :
    ∃ m, receive minionTypes stack d = .message m ∧ buffer = m.getData.getD [] := by
  unfold getTaskArgs at h
  split at h
  · next m hm =>
    refine ⟨m, hm, ?_⟩
    split at h <;> cases h
    rfl
  all_goals cases h

theorem getTaskArgs_readSend {beyond : ℕ → UInt8} {uid offset length : UInt64} {d : List UInt8}
    (hd : (AMessage.readSend uid offset length).datagram beyond = some d) (stack : ℕ → UInt8) :
    getTaskArgs stack d = .args (.read uid offset.toNat length.toNat) := by
  obtain ⟨d', hd', hr⟩ := receive_datagram minionTypes
    (.readSend uid offset length) beyond (by simp [minionTypes, AMessage.getMessageType])
    trivial (by simp [AMessage.wireSize, bufsiz])
  obtain rfl : d = d' := Option.some.inj (hd.symm.trans hd')
  rw [getTaskArgs, hr]
  rfl

theorem getTaskArgs_writeSend {beyond : ℕ → UInt8} {uid offset length : UInt64}
    {data d : List UInt8} (hl : data.length = length.toNat) (hs : data.length ≤ maxWriteLength)
    (hd : (AMessage.writeSend uid offset length (some data)).datagram beyond = some d)
    (stack : ℕ → UInt8) :
    getTaskArgs stack d =
      .args (.write uid offset.toNat length.toNat (data ++ [beyond data.length])) := by
  obtain ⟨d', hd', hr⟩ := receive_datagram minionTypes
    (.writeSend uid offset length (some data)) beyond
    (by simp [minionTypes, AMessage.getMessageType]) ⟨data, rfl, hl⟩ (by
      simp only [maxWriteLength, bufsiz, AMessage.wireSize] at hs ⊢
      omega)
  obtain rfl : d = d' := Option.some.inj (hd.symm.trans hd')
  rw [getTaskArgs, hr]
  rfl

/-- The one length whose successor wraps to zero: the request carries no payload. -/
theorem getTaskArgs_writeSend_wrapped {beyond : ℕ → UInt8} {uid offset length : UInt64}
    {data d : List UInt8} (hl : length.toNat + 1 = 2 ^ 64)
    (hd : (AMessage.writeSend uid offset length (some data)).datagram beyond = some d)
    (stack : ℕ → UInt8) :
    getTaskArgs stack d = .args (.write uid offset.toNat length.toNat []) := by
  have hcount : (length.toNat + 1) % 2 ^ 64 = 0 := by rw [hl, Nat.mod_self]
  have hb : (AMessage.writeSend uid offset length (some data)).body beyond =
      some (u64Bytes uid ++ (u64Bytes offset ++ (u64Bytes length ++ []))) := by
    simp only [AMessage.body, hcount, copyFrom, memRead, List.range_zero, List.map_nil,
      Option.map_some]
  have hs : (AMessage.writeSend uid offset length (some data)).getSize ≤ bufsiz - 1 := by
    simp only [AMessage.getSize, AMessage.wireSize, bufsiz]
    omega
  have hr : receive minionTypes stack d = .message (.writeSend uid offset length (some [])) := by
    refine receive_of_body minionTypes ?_ hb hd hs (fun rest => ?_) stack
    · simp [minionTypes, AMessage.getMessageType]
    · simp only [fromBuffer, AMessage.getMessageType, List.append_assoc, List.nil_append,
        takeU64_append, Option.bind_eq_bind, Option.bind_some, hcount]
      rfl
  rw [getTaskArgs, hr]
  rfl

variable {f : FileManager} {size : ℕ}

/-- A read task inside the file answers success and the bytes there. -/
theorem runTask_read (h : f.Serves size) {offset length : ℕ} (hin : offset + length ≤ size)
    (heap : ℕ → UInt8) (uid : UID) :
    runTask heap f (.read uid offset length) =
      ({ f with pos := offset + length }, some (.readReceive uid 1 (UInt64.ofNat length)
        (some ((f.content.drop offset).take length)))) := by
  simp [runTask, MinionArgs.getKey, createCommand, runCommand, FileManager.readFromFile_eq h hin,
    resultByte]

/-- A write task inside the file stores its bytes and answers success. -/
theorem runTask_write (h : f.Serves size) {offset length : ℕ} (hin : offset + length ≤ size)
    {buffer : List UInt8} (hb : length ≤ buffer.length) (heap : ℕ → UInt8) (uid : UID) :
    ∃ p, runTask heap f (.write uid offset length buffer) =
      ({ f with content := writeAt 0 f.content offset (buffer.take length), pos := p },
        some (.writeReceive uid 1)) := by
  obtain ⟨p, hp⟩ := FileManager.writeToFile_eq h hin hb heap
  exact ⟨p, by simp [runTask, MinionArgs.getKey, createCommand, runCommand, hp, resultByte]⟩

/-- A read request inside the file: the file keeps its bytes, and the answer decodes to
them at the master. -/
theorem serve_readSend (h : f.Serves size) {uid offset length : UInt64}
    (hin : offset.toNat + length.toNat ≤ size) (hl : length.toNat ≤ maxReadLength)
    {beyond : ℕ → UInt8} {d : List UInt8}
    (hd : (AMessage.readSend uid offset length).datagram beyond = some d)
    (stack heap : ℕ → UInt8) :
    ∃ p a, serve stack heap f d = some ({ f with pos := p }, some a) ∧
      ∀ stack', receive masterTypes stack' a = .message (.readReceive uid 1 length
        (some ((f.content.drop offset.toNat).take length.toNat))) := by
  have hrun := runTask_read h hin heap uid
  rw [UInt64.ofNat_toNat] at hrun
  have hfit : (AMessage.readReceive uid 1 length
      (some ((f.content.drop offset.toNat).take length.toNat))).PayloadFits := by
    refine ⟨_, rfl, ?_⟩
    have := h.length_eq
    simp
    omega
  obtain ⟨a, ha, hr⟩ := receive_datagram masterTypes
    (.readReceive uid 1 length (some ((f.content.drop offset.toNat).take length.toNat)))
    heap (by simp [masterTypes, AMessage.getMessageType]) hfit (by
      simp only [maxReadLength, bufsiz, AMessage.wireSize] at hl ⊢
      omega)
  refine ⟨offset.toNat + length.toNat, a, ?_, hr⟩
  simp only [serve, getTaskArgs_readSend hd, hrun, ha, Option.map_some]

/-- A write request inside the file: its bytes are stored, the byte behind its payload is
not, and the answer decodes to success at the master. -/
theorem serve_writeSend (h : f.Serves size) {uid offset length : UInt64} {data : List UInt8}
    (hdata : data.length = length.toNat) (hin : offset.toNat + data.length ≤ size)
    (hl : data.length ≤ maxWriteLength) {beyond : ℕ → UInt8} {d : List UInt8}
    (hd : (AMessage.writeSend uid offset length (some data)).datagram beyond = some d)
    (stack heap : ℕ → UInt8) :
    ∃ p a, serve stack heap f d =
        some ({ f with content := writeAt 0 f.content offset.toNat data, pos := p }, some a) ∧
      ∀ stack', receive masterTypes stack' a = .message (.writeReceive uid 1) := by
  obtain ⟨p, hrun⟩ := runTask_write h (show offset.toNat + length.toNat ≤ size by omega)
    (show length.toNat ≤ (data ++ [beyond data.length]).length by simp; omega) heap uid
  rw [← hdata, List.take_left' rfl] at hrun
  obtain ⟨a, ha, hr⟩ := receive_datagram masterTypes
    (.writeReceive uid 1) heap (by simp [masterTypes, AMessage.getMessageType])
    trivial (by simp [AMessage.wireSize, bufsiz])
  refine ⟨p, a, ?_, hr⟩
  simp only [serve, getTaskArgs_writeSend hdata hl hd, ← hdata, hrun, ha, Option.map_some]

end IoTDrive.Minion
