import IoTDrive.Message.Bounds
import IoTDrive.Peer.Socket

/-! Datagrams that nobody should have sent. A handler ought to return from one without a
trace: no exception, no callback, no task, and the state of the proxy as it was. The
socket's address is overwritten before anything is checked, an unregistered type throws
out of the reactor, and a datagram that is cut short behind its header is decoded
from the stack. What is left without effect is said exactly, for either end. -/

namespace IoTDrive.Peer

open Lib Message Minion

variable {A κ : Type*}

/-- The received bytes are the encoding of a message. -/
def Encodes (bytes : List UInt8) (m : AMessage) : Prop :=
  m.Readable ∧ m.wireSize < 2 ^ 32 ∧ ∃ beyond, m.toBuffer beyond = some bytes

theorem Encodes.le_length {bytes : List UInt8} {m : AMessage} (h : Encodes bytes m) :
    17 ≤ bytes.length := by
  obtain ⟨-, hs, beyond, hb⟩ := h
  obtain ⟨b, hbody, rfl⟩ := Option.map_eq_some_iff.mp hb
  have hl := AMessage.body_length hbody (by omega)
  have hw : 17 ≤ m.wireSize := by cases m <;> simp only [AMessage.wireSize] <;> omega
  simp
  omega

/-- Too short for the header, or shorter than its own size word: the two cases that are
logged and refused. -/
def RefusedBySize (bytes : List UInt8) : Prop :=
  bytes.length < 8 ∨ bytes.length < leNat (bytes.take 4)

namespace MinionProxy

/-- Not the encoding of an answer to a pending request. -/
def BadAnswer (p : MinionProxy A κ) (d : List UInt8) : Prop :=
  ¬ ∃ m, Encodes (receiveFrom d) m ∧ m.getMessageType ∈ masterTypes ∧
    (p.callbacks.map m.getUID).isSome

/-- The handler returns, calls nothing and leaves the proxy as it was. -/
def Drops (p : MinionProxy A κ) (sender : A) (stack : ℕ → UInt8) (d : List UInt8) : Prop :=
  p.onMinionFDWakeUp sender stack d = (p, .refused) ∨
    ∃ m, p.onMinionFDWakeUp sender stack d = (p, .unknownUID m)

/-- The datagram comes from where the socket points already, and its size word refuses it,
or its type is registered, its fields end inside the stack buffer and its UID word is not
pending. -/
def Harmless (p : MinionProxy A κ) (sender : A) (stack : ℕ → UInt8) (d : List UInt8) : Prop :=
  sender = p.socket.serverAddr ∧ (RefusedBySize (receiveFrom d) ∨
    ∃ t, typeOf masterTypes (receiveFrom d) = some t ∧
      8 + fixedSize t + payloadSize (stackMemory (receiveFrom d) stack) 8 t ≤ bufsiz ∧
      p.callbacks.map (uidWord (receiveFrom d) stack) = none)

theorem fst_onMinionFDWakeUp (p : MinionProxy A κ) (sender : A) (stack : ℕ → UInt8)
    (d : List UInt8) : (p.onMinionFDWakeUp sender stack d).1.socket = ⟨sender⟩ := rfl

/-- A handler that leaves the address as it was has received from that address. -/
theorem sender_eq {p : MinionProxy A κ} {sender : A} {stack : ℕ → UInt8} {d : List UInt8}
    {w : Master.MinionProxy.WakeUp κ} (h : p.onMinionFDWakeUp sender stack d = (p, w)) :
    sender = p.socket.serverAddr := by
  have := fst_onMinionFDWakeUp p sender stack d
  rw [h] at this
  rw [this]

/-- The callbacks stay untouched and uncalled exactly for these bytes. -/
theorem callbacks_untouched_iff (c : Master.MinionProxy κ) (stack : ℕ → UInt8)
    (d : List UInt8) :
    (c.onMinionFDWakeUp stack d = (c, .refused) ∨
      ∃ m, c.onMinionFDWakeUp stack d = (c, .unknownUID m)) ↔
    (RefusedBySize (receiveFrom d) ∨ ∃ t, typeOf masterTypes (receiveFrom d) = some t ∧
      8 + fixedSize t + payloadSize (stackMemory (receiveFrom d) stack) 8 t ≤ bufsiz ∧
      c.map (uidWord (receiveFrom d) stack) = none) := by
  rcases Nat.lt_or_ge (receiveFrom d).length 8 with h8 | h8
  · simp [Master.MinionProxy.onMinionFDWakeUp, receive_short h8, RefusedBySize, h8]
  rcases Nat.lt_or_ge (receiveFrom d).length (leNat ((receiveFrom d).take 4)) with hw | hw
  · simp [Master.MinionProxy.onMinionFDWakeUp, receive_mismatch h8 hw, RefusedBySize, hw]
  have hsize : ¬ RefusedBySize (receiveFrom d) := by simp only [RefusedBySize]; omega
  cases ht : typeOf masterTypes (receiveFrom d) with
  | none =>
    simp [Master.MinionProxy.onMinionFDWakeUp, receive_unknownType h8 hw ht, hsize]
  | some t =>
    rcases receive_typed stack h8 hw ht with ⟨hfit, m, hm, -, huid⟩ | ⟨hlong, hm⟩
    · cases hc : c.map (uidWord (receiveFrom d) stack) with
      | none =>
        have hdis := Master.MinionProxy.dispatch_of_none (huid ▸ hc)
        simp [Master.MinionProxy.onMinionFDWakeUp, hm, hdis, hsize, hfit]
      | some k =>
        have hdis := Master.MinionProxy.dispatch_of_some (huid ▸ hc)
        simp [Master.MinionProxy.onMinionFDWakeUp, hm, hdis, hsize]
    · have hnot : ¬ 8 + fixedSize t + payloadSize (stackMemory (receiveFrom d) stack) 8 t ≤
          bufsiz := by omega
      simp [Master.MinionProxy.onMinionFDWakeUp, hm, hsize, hnot]

theorem drops_iff (p : MinionProxy A κ) (sender : A) (stack : ℕ → UInt8) (d : List UInt8) :
    p.Drops sender stack d ↔ p.Harmless sender stack d := by
  rw [Harmless, ← callbacks_untouched_iff]
  constructor
  · rintro (h | ⟨m, h⟩)
    · refine ⟨sender_eq h, .inl ?_⟩
      simp only [onMinionFDWakeUp, Prod.mk.injEq] at h
      exact Prod.ext (congrArg callbacks h.1) h.2
    · refine ⟨sender_eq h, .inr ⟨m, ?_⟩⟩
      simp only [onMinionFDWakeUp, Prod.mk.injEq] at h
      exact Prod.ext (congrArg callbacks h.1) h.2
  · rintro ⟨hs, h | ⟨m, h⟩⟩
    · left
      rw [onMinionFDWakeUp, h, UDPSocket.receiveFrom, hs]
    · refine .inr ⟨m, ?_⟩
      rw [onMinionFDWakeUp, h, UDPSocket.receiveFrom, hs]

end MinionProxy

/-- Not the encoding of a request. -/
def BadRequest (d : List UInt8) : Prop :=
  ¬ ∃ m, Encodes (receiveFrom d) m ∧ m.getMessageType ∈ minionTypes

namespace MasterProxy

/-- The handler returns a null pointer, so that no task starts, and leaves the proxy as it
was. -/
def Drops (p : MasterProxy A) (sender : A) (stack : ℕ → UInt8) (d : List UInt8) : Prop :=
  p.getTaskArgs sender stack d = (p, .refused)

/-- The datagram comes from where the socket points already, and its size word refuses
it. -/
def Harmless (p : MasterProxy A) (sender : A) (d : List UInt8) : Prop :=
  sender = p.socket.serverAddr ∧ RefusedBySize (receiveFrom d)

theorem getTaskArgs_refused_iff (stack : ℕ → UInt8) (d : List UInt8) :
    Minion.getTaskArgs stack d = .refused ↔ RefusedBySize (receiveFrom d) := by
  rcases Nat.lt_or_ge (receiveFrom d).length 8 with h8 | h8
  · simp [Minion.getTaskArgs, receive_short h8, RefusedBySize, h8]
  rcases Nat.lt_or_ge (receiveFrom d).length (leNat ((receiveFrom d).take 4)) with hw | hw
  · simp [Minion.getTaskArgs, receive_mismatch h8 hw, RefusedBySize, hw]
  have hsize : ¬ RefusedBySize (receiveFrom d) := by simp only [RefusedBySize]; omega
  simp only [hsize, iff_false]
  cases ht : typeOf minionTypes (receiveFrom d) with
  | none => simp [Minion.getTaskArgs, receive_unknownType h8 hw ht]
  | some t =>
    rcases receive_typed stack h8 hw ht with ⟨-, m, hm, -, -⟩ | ⟨-, hm⟩
    · rw [Minion.getTaskArgs, hm]
      cases m <;> simp [AMessage.getMessageType]
    · simp [Minion.getTaskArgs, hm]

theorem drops_iff (p : MasterProxy A) (sender : A) (stack : ℕ → UInt8) (d : List UInt8) :
    p.Drops sender stack d ↔ p.Harmless sender d := by
  rw [Drops, getTaskArgs, Prod.mk.injEq, getTaskArgs_refused_iff, Harmless, UDPSocket.receiveFrom]
  constructor
  · rintro ⟨h, hr⟩
    exact ⟨congrArg (UDPSocket.serverAddr ∘ socket) h, hr⟩
  · rintro ⟨h, hr⟩
    exact ⟨by rw [h], hr⟩

end MasterProxy

/-- Along every run of either end, a bad datagram is dropped without effect exactly if it is
harmless in the sense above. -/
theorem bad_datagram_dropped_iff {A κ : Type*} (addr : A) (file : FileManager) :
    (∀ (as : List (MasterEvent A κ)) (s : MasterEnd A κ),
      run MasterEnd.step (fun _ _ => True) as (.init addr) = some s →
      ∀ (sender : A) (stack : ℕ → UInt8) (d : List UInt8), s.proxy.BadAnswer d →
        (s.proxy.Drops sender stack d ↔ s.proxy.Harmless sender stack d)) ∧
    (∀ (as : List (MinionEvent A)) (s : MinionEnd A),
      run MinionEnd.step (fun _ _ => True) as (.init addr file) = some s →
      ∀ (sender : A) (stack : ℕ → UInt8) (d : List UInt8), BadRequest d →
        (s.proxy.Drops sender stack d ↔ s.proxy.Harmless sender d)) :=
  ⟨fun _ s _ sender stack d _ => s.proxy.drops_iff sender stack d,
    fun _ s _ sender stack d _ => s.proxy.drops_iff sender stack d⟩

/-- Fewer bytes than the shortest message has encode nothing. -/
theorem badRequest_of_length {d : List UInt8} (h : d.length < 17) : BadRequest d := by
  rintro ⟨m, hm, -⟩
  have hl := hm.le_length
  rw [receiveFrom, List.length_take] at hl
  omega

/-- A short packet from the address the socket holds. -/
theorem bad_datagram_dropped_short :
    BadRequest [1, 2, 3] ∧ MinionEnd.small.proxy.Drops 7 (fun _ => 0) [1, 2, 3] := by
  have hbad : BadRequest [1, 2, 3] := badRequest_of_length (by decide)
  refine ⟨hbad, ((@bad_datagram_dropped_iff ℕ Unit 7 _).2 [] _ rfl 7 _ _ hbad).mpr ?_⟩
  exact ⟨rfl, .inl (by decide)⟩

/-- A short packet from another address takes the socket's address with it, and a header of
an unregistered type ends the reactor. -/
theorem bad_datagram_takes_effect :
    (BadRequest [1, 2, 3] ∧ ¬ MinionEnd.small.proxy.Drops 8 (fun _ => 0) [1, 2, 3]) ∧
    BadRequest [8, 0, 0, 0, 9, 0, 0, 0] ∧
      ¬ MinionEnd.small.proxy.Drops 7 (fun _ => 0) [8, 0, 0, 0, 9, 0, 0, 0] := by
  have hshort : ¬ MinionEnd.small.proxy.getTaskArgs 8 (fun _ => 0) [1, 2, 3] =
      (MinionEnd.small.proxy, .refused) := by decide +kernel
  have htype : ¬ MinionEnd.small.proxy.getTaskArgs 7 (fun _ => 0) [8, 0, 0, 0, 9, 0, 0, 0] =
      (MinionEnd.small.proxy, .refused) := by decide +kernel
  exact ⟨⟨badRequest_of_length (by decide), hshort⟩, badRequest_of_length (by decide), htype⟩

end IoTDrive.Peer
