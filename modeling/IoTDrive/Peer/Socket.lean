import IoTDrive.Lib.Transition
import IoTDrive.Master.Proxy
import IoTDrive.Minion.Commands

/-! The two ends of the UDP channel with their sockets. A `UDPSocket` keeps one address:
`recvfrom` stores the sender there, whatever the datagram holds, and `sendto` sends
to it. The master's proxy of a minion starts with the address it was constructed
with; a minion's socket starts with the address it is bound to. A minion
receives in its reactor while pool threads execute the tasks and send the
answers, each at a moment of its own. A `sendto` may fail: the exception leaves the proxy of
the master with the callback registered, and a command of the minion logs it. An exception
that leaves a handler ends the process, so the step functions are undefined there. -/

namespace IoTDrive.Peer

open Lib Message Minion

variable {A κ : Type*}

/-- `UDPSocket`: the address in `m_serveraddr`. -/
structure UDPSocket (A : Type*) where
  serverAddr : A
  deriving DecidableEq, Repr

/-- The address after `recvfrom` returned a datagram of `sender`. -/
def UDPSocket.receiveFrom (_ : UDPSocket A) (sender : A) : UDPSocket A := ⟨sender⟩

/-- Where `sendto` sends, unless it fails. -/
def UDPSocket.sendTo (s : UDPSocket A) (ok : Bool) : Option A :=
  if ok then some s.serverAddr else none

/-! ### The master's end -/

/-- `MinionProxy`: the callbacks and the socket. -/
structure MinionProxy (A κ : Type*) where
  callbacks : Master.MinionProxy κ
  socket : UDPSocket A

namespace MinionProxy

def init (addr : A) : MinionProxy A κ := ⟨.empty, ⟨addr⟩⟩

/-- `AddReadTask` and `AddWriteTask`: register the callback and send. The destination is
returned with the message; there is none if `SendTo` throws. -/
def addTask (p : MinionProxy A κ) (sMsg : AMessage) (onDone : κ) (ok : Bool) :
    MinionProxy A κ × Option (A × AMessage) :=
  (⟨p.callbacks.register sMsg.getUID onDone, p.socket⟩, (p.socket.sendTo ok).map (·, sMsg))

def addReadTask (p : MinionProxy A κ) (uid : UID) (offset length : UInt64) (onDone : κ)
    (ok : Bool) : MinionProxy A κ × Option (A × AMessage) :=
  p.addTask (.readSend uid offset length) onDone ok

def addWriteTask (p : MinionProxy A κ) (uid : UID) (offset length : UInt64)
    (data : Option (List UInt8)) (onDone : κ) (ok : Bool) :
    MinionProxy A κ × Option (A × AMessage) :=
  p.addTask (.writeSend uid offset length data) onDone ok

def onMinionFDWakeUp (p : MinionProxy A κ) (sender : A) (stack : ℕ → UInt8) (d : List UInt8) :
    MinionProxy A κ × Master.MinionProxy.WakeUp κ :=
  (⟨(p.callbacks.onMinionFDWakeUp stack d).1, p.socket.receiveFrom sender⟩,
    (p.callbacks.onMinionFDWakeUp stack d).2)

end MinionProxy

/-- What a proxy of the master has done: its state, the requests it sent with their
destinations, and the senders of the datagrams it received. -/
structure MasterEnd (A κ : Type*) where
  proxy : MinionProxy A κ
  sent : List (A × AMessage)
  arrivals : List A

/-- In a call, `ok` is whether its `sendto` succeeds. -/
inductive MasterEvent (A κ : Type*) where
  | addReadTask (uid : UID) (offset length : UInt64) (onDone : κ) (ok : Bool)
  | addWriteTask (uid : UID) (offset length : UInt64) (data : Option (List UInt8)) (onDone : κ)
      (ok : Bool)
  | wakeUp (sender : A) (stack : ℕ → UInt8) (d : List UInt8)

namespace MasterEnd

def init (addr : A) : MasterEnd A κ := ⟨.init addr, [], []⟩

/-- The sends of pool threads and the wake-ups of the reactor, in any order. -/
def step (s : MasterEnd A κ) : MasterEvent A κ → Option (MasterEnd A κ)
  | .addReadTask uid offset length onDone ok =>
    let (proxy, message) := s.proxy.addReadTask uid offset length onDone ok
    some { s with proxy, sent := s.sent ++ message.toList }
  | .addWriteTask uid offset length data onDone ok =>
    let (proxy, message) := s.proxy.addWriteTask uid offset length data onDone ok
    some { s with proxy, sent := s.sent ++ message.toList }
  | .wakeUp sender stack d =>
    match s.proxy.onMinionFDWakeUp sender stack d with
    | (_, .crash) => none
    | (proxy, _) => some { s with proxy, arrivals := s.arrivals ++ [sender] }

end MasterEnd

/-! ### The minion's end -/

/-- `MasterProxy`. -/
structure MasterProxy (A : Type*) where
  socket : UDPSocket A
  deriving DecidableEq, Repr

def MasterProxy.getTaskArgs (p : MasterProxy A) (sender : A) (stack : ℕ → UInt8)
    (d : List UInt8) : MasterProxy A × TaskReceipt :=
  (⟨p.socket.receiveFrom sender⟩, Minion.getTaskArgs stack d)

/-- `SendReadResponse` and `SendWriteResponse`: the destination of an answer, unless `SendTo`
throws. -/
def MasterProxy.sendResponse (p : MasterProxy A) (ok : Bool) : Option A := p.socket.sendTo ok

/-- `GetUID` of task arguments. -/
def argsUID : MinionArgs → UID
  | .read uid _ _ => uid
  | .write uid _ _ _ => uid

/-- A task in the pool, with the number of the datagram it came from. -/
structure Task where
  request : ℕ
  args : MinionArgs
  deriving DecidableEq, Repr

/-- An answer that a command has built, and one that was sent. -/
structure Answer where
  request : ℕ
  message : AMessage
  deriving DecidableEq, Repr

/-- A minion: its proxy and file, the tasks in the pool, the answers about to be sent, the
answers sent with their destinations, and every datagram received with its sender. -/
structure MinionEnd (A : Type*) where
  proxy : MasterProxy A
  file : FileManager
  tasks : List Task
  ready : List Answer
  sent : List (A × Answer)
  arrivals : List (A × TaskReceipt)

inductive MinionEvent (A : Type*) where
  | receive (sender : A) (stack : ℕ → UInt8) (d : List UInt8)
  | run (i : ℕ) (heap : ℕ → UInt8)
  | send (i : ℕ) (ok : Bool)

namespace MinionEnd

def init (own : A) (file : FileManager) : MinionEnd A := ⟨⟨⟨own⟩⟩, file, [], [], [], []⟩

theorem small_size : 0 < 4 := by decide

/-- A minion with four bytes, bound to address 7. -/
def small : MinionEnd ℕ := .init 7 (.init [] 4 small_size)

/-- A datagram becomes a task or is refused; a worker runs the `i`-th task of the pool and
builds its answer; a worker sends the `i`-th answer, which is gone if `sendto` fails. -/
def step (s : MinionEnd A) : MinionEvent A → Option (MinionEnd A)
  | .receive sender stack d =>
    let (proxy, receipt) := s.proxy.getTaskArgs sender stack d
    let arrivals := s.arrivals ++ [(sender, receipt)]
    match receipt with
    | .args args =>
      some { s with proxy, arrivals, tasks := s.tasks ++ [⟨s.arrivals.length, args⟩] }
    | .refused => some { s with proxy, arrivals }
    | .crash => none
  | .run i heap => s.tasks[i]?.map fun task =>
    let (file, answer) := runTask heap s.file task.args
    { s with
      file, tasks := s.tasks.eraseIdx i,
      ready := s.ready ++ (answer.map (⟨task.request, ·⟩)).toList }
  | .send i ok => s.ready[i]?.map fun answer =>
    { s with
      ready := s.ready.eraseIdx i
      sent := s.sent ++ ((s.proxy.sendResponse ok).map (·, answer)).toList }

end MinionEnd

end IoTDrive.Peer
