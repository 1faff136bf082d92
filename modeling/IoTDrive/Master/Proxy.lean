import IoTDrive.Message.Datagram
import Mathlib.Logic.Function.Basic

/-! The master's proxy of one minion. Its map holds one callback for every UID: sending a
request registers the callback of that UID in place of any earlier one, and an
answer calls the callback found under its UID and removes it. The proxy knows
nothing of what a callback does, so it is generic in the type of callbacks. -/

namespace IoTDrive.Master

open Message

structure MinionProxy (κ : Type*) where
  map : UID → Option κ

namespace MinionProxy

variable {κ : Type*}

def empty : MinionProxy κ := ⟨fun _ => none⟩

/-- `m_map[uid] = onDone`, the part of `AddReadTask` and `AddWriteTask` before `SendTo`. -/
def register (p : MinionProxy κ) (uid : UID) (onDone : κ) : MinionProxy κ :=
  ⟨Function.update p.map uid (some onDone)⟩

/-- What `OnMinionFDWakeUp` makes of one datagram: refused and logged, the end of the
receive loop, an answer nobody waits for, or a call. -/
inductive WakeUp (κ : Type*) where
  | refused
  | crash
  | unknownUID (m : AMessage)
  | invoke (onDone : κ) (m : AMessage)

/-- The part after decoding: find the callback, call it and erase it. -/
def dispatch (p : MinionProxy κ) (m : AMessage) : MinionProxy κ × WakeUp κ :=
  match p.map m.getUID with
  | none => (p, .unknownUID m)
  | some onDone => (⟨Function.update p.map m.getUID none⟩, .invoke onDone m)

def onMinionFDWakeUp (p : MinionProxy κ) (stack : ℕ → UInt8) (d : List UInt8) :
    MinionProxy κ × WakeUp κ :=
  match receive masterTypes stack d with
  | .short => (p, .refused)
  | .mismatch => (p, .refused)
  | .unknownType => (p, .crash)
  | .fault => (p, .crash)
  | .message m => p.dispatch m

@[simp] theorem register_self (p : MinionProxy κ) (uid : UID) (k : κ) :
    (p.register uid k).map uid = some k := by simp [register]

theorem register_of_ne (p : MinionProxy κ) {uid v : UID} (k : κ) (h : v ≠ uid) :
    (p.register uid k).map v = p.map v := by simp [register, h]

theorem dispatch_of_none {p : MinionProxy κ} {m : AMessage} (h : p.map m.getUID = none) :
    p.dispatch m = (p, .unknownUID m) := by simp [dispatch, h]

theorem dispatch_of_some {p : MinionProxy κ} {m : AMessage} {k : κ}
    (h : p.map m.getUID = some k) :
    p.dispatch m = (⟨Function.update p.map m.getUID none⟩, .invoke k m) := by simp [dispatch, h]

end MinionProxy

end IoTDrive.Master
