import IoTDrive.Lib.Locks
import Mathlib.Order.Nat

/-! The mutexes of the master and the calls that take them. The answer path nests four of
them: the reactor of the minions calls a callback under the proxy's mutex, the callback
takes the ticket's, the dispatcher leads into the response manager and from there
into the NBD proxy, which logs. The NBD reactor and the workers of the pool take
some of the same mutexes one at a time. Each function below lists the lock operations on
its paths, one path for each way it can go. -/

namespace IoTDrive.Master.Locks

open Lib

/-- The factories with a mutex of their own: messages, task arguments and commands. -/
inductive FactoryKind where
  | message | taskArgs | command
  deriving DecidableEq, Repr

inductive Mutex where
  | minionProxy (m : ℕ)
  | ticket (t : ℕ)
  | responseManager
  | nbdProxy
  | factory (k : FactoryKind)
  | loggerQueue
  deriving DecidableEq, Repr

abbrev Path := List (LockOp Mutex)

/-- `Logger::Log` pushes to the queue. -/
def log : Path := locked .loggerQueue []

/-- `Factory::Create`; the creators take no mutex, and a missing key throws under it. -/
def create (k : FactoryKind) : Path := locked (.factory k) []

/-! ### The minion reactor -/

/-- `NBDProxy::OnNBDResponse`: an unknown UID is logged, a send may throw. -/
inductive ReplyBranch where
  | unknownUID | sendThrows | sent
  deriving DecidableEq, Repr

def onNBDResponse : ReplyBranch → Path
  | .unknownUID => locked .nbdProxy log
  | .sendThrows => locked .nbdProxy []
  | .sent => locked .nbdProxy log

/-- `Ticket::TryComplete` notifies whoever has registered: nobody yet, or the response
manager's `OnTicketDone`, which logs the outcome. -/
inductive DoneBranch where
  | unregistered
  | unknownUID
  | reply (r : ReplyBranch)
  deriving DecidableEq, Repr

def onTicketDone : DoneBranch → Path
  | .unregistered => []
  | .unknownUID => locked .responseManager log
  | .reply r => locked .responseManager (log ++ onNBDResponse r)

/-- `Ticket::OnMirrorResponse`: too late, not the last answer, or the last one. -/
inductive MirrorBranch where
  | incomplete
  | completes (d : DoneBranch)
  deriving DecidableEq, Repr

def onMirrorResponse (t : ℕ) : MirrorBranch → Path
  | .incomplete => locked (.ticket t) []
  | .completes d => locked (.ticket t) (onTicketDone d)

/-- `MinionProxy::OnMinionFDWakeUp`: `recvfrom` throws, the datagram is refused, its type or
its UID is unknown, or its callback is called. -/
inductive WakeUpBranch where
  | receiveThrows
  | refused
  | unknownType
  | unknownUID
  | answer (t : ℕ) (b : MirrorBranch)
  deriving DecidableEq, Repr

def onMinionFDWakeUp (m : ℕ) : WakeUpBranch → Path
  | .receiveThrows => locked (.minionProxy m) []
  | .refused => locked (.minionProxy m) log
  | .unknownType => locked (.minionProxy m) [] ++ create .message
  | .unknownUID =>
    locked (.minionProxy m) [] ++ (create .message ++ locked (.minionProxy m) log)
  | .answer t b =>
    locked (.minionProxy m) [] ++
      (create .message ++ locked (.minionProxy m) (onMirrorResponse t b))

/-! ### The NBD reactor -/

/-- `ResponseManager::OnNewTask`. -/
def onNewTask : Path := locked .responseManager []

/-- `NBDProxy::GetTaskArgs`, with the callback of the framework behind it: the header or the
payload is not received or is bad, a command without data is logged twice, or the
reply is stored and the new task announced. -/
inductive RequestBranch where
  | headerThrows | payloadThrows | nonRW | read | write
  deriving DecidableEq, Repr

def getTaskArgs : RequestBranch → Path
  | .headerThrows => locked .nbdProxy []
  | .payloadThrows => locked .nbdProxy [] ++ locked .nbdProxy []
  | .nonRW => locked .nbdProxy [] ++ (log ++ log)
  | .read =>
    locked .nbdProxy [] ++ (create .taskArgs ++ (locked .nbdProxy [] ++ onNewTask))
  | .write =>
    locked .nbdProxy [] ++ (locked .nbdProxy [] ++
      (create .taskArgs ++ (locked .nbdProxy [] ++ onNewTask)))

/-! ### The workers -/

/-- `ResponseManager::OnTicketCreate`; the registration behind it takes no mutex. -/
def onTicketCreate : Path := locked .responseManager []

/-- `MinionProxy::AddReadTask` and `AddWriteTask`. -/
def addReadTask (m : ℕ) : Path := locked (.minionProxy m) [] ++ log

def addWriteTask (m : ℕ) : Path := locked (.minionProxy m) []

/-- A command of a worker: no command for its key, a range error before anything is sent, or
the announcement of the ticket and one send for every minion in the list, the
last of which may throw. An exception is caught and logged. -/
inductive TaskBranch where
  | noCommand
  | outOfRange
  | sends (minions : List ℕ) (throwing : Option ℕ)
  deriving DecidableEq, Repr

/-- `FW_TPTask::Run` with `ReadCommand` or `WriteCommand`, whose sends are `addTask`. -/
def runTask (addTask : ℕ → Path) : TaskBranch → Path
  | .noCommand => create .command ++ log
  | .outOfRange => create .command ++ log
  | .sends minions throwing =>
    create .command ++ (onTicketCreate ++ (minions.flatMap addTask ++
      (throwing.elim [] fun m => locked (.minionProxy m) [] ++ log)))

/-! ### Threads -/

/-- The reactors, the workers of the pool and the thread of the logger. -/
inductive ThreadId where
  | nbdReactor
  | minionReactor
  | worker (w : ℕ)
  | logger
  deriving DecidableEq, Repr

inductive Call where
  | getTaskArgs (b : RequestBranch)
  | onMinionFDWakeUp (m : ℕ) (b : WakeUpBranch)
  | readTask (b : TaskBranch)
  | writeTask (b : TaskBranch)
  | popLog
  deriving DecidableEq, Repr

def Call.path : Call → Path
  | .getTaskArgs b => Locks.getTaskArgs b
  | .onMinionFDWakeUp m b => Locks.onMinionFDWakeUp m b
  | .readTask b => runTask addReadTask b
  | .writeTask b => runTask addWriteTask b
  | .popLog => log

/-- Which thread makes which calls. -/
def Call.runsOn : Call → ThreadId → Bool
  | .getTaskArgs _, .nbdReactor => true
  | .onMinionFDWakeUp _ _, .minionReactor => true
  | .readTask _, .worker _ => true
  | .writeTask _, .worker _ => true
  | .popLog, .logger => true
  | _, _ => false

/-- Threads start only calls of their own. -/
def OwnCalls (_ : LockState ThreadId Mutex) : LockEvent ThreadId Call → Prop
  | .start t call => call.runsOn t = true
  | .next _ => True

instance (s : LockState ThreadId Mutex) (e : LockEvent ThreadId Call) :
    Decidable (OwnCalls s e) :=
  match e with
  | .start t call => inferInstanceAs (Decidable (call.runsOn t = true))
  | .next _ => inferInstanceAs (Decidable True)

/-! ### The order of acquisition -/

/-- Proxies, tickets, the response manager, the NBD proxy, and above them the mutexes under
which nothing else is taken. -/
def Mutex.rank : Mutex → ℕ
  | .minionProxy _ => 0
  | .ticket _ => 1
  | .responseManager => 2
  | .nbdProxy => 3
  | .factory _ => 4
  | .loggerQueue => 4

open LockState

theorem above_leaf {bound : Mutex → Prop} {l : Mutex} (hl : ∀ h, bound h → h.rank < l.rank) :
    Above Mutex.rank bound (locked l []) := above_locked hl above_nil

theorem above_log {n : ℕ} (hn : n < 4) : Above Mutex.rank (fun h => h.rank ≤ n) log :=
  above_leaf fun _ hh => Nat.lt_of_le_of_lt hh hn

theorem above_onNBDResponse (r : ReplyBranch) :
    Above Mutex.rank (fun h => h.rank ≤ Mutex.responseManager.rank) (onNBDResponse r) := by
  have hnbd : ∀ h : Mutex, h.rank ≤ Mutex.responseManager.rank → h.rank < Mutex.nbdProxy.rank :=
    fun h hh => Nat.lt_of_le_of_lt hh (by decide)
  cases r with
  | unknownUID => exact above_locked hnbd (above_log (by decide))
  | sendThrows => exact above_leaf hnbd
  | sent => exact above_locked hnbd (above_log (by decide))

theorem above_onTicketDone (t : ℕ) (d : DoneBranch) :
    Above Mutex.rank (fun h => h.rank ≤ (Mutex.ticket t).rank) (onTicketDone d) := by
  have hrm : ∀ h : Mutex, h.rank ≤ (Mutex.ticket t).rank → h.rank < Mutex.responseManager.rank :=
    fun h hh => Nat.lt_of_le_of_lt hh (show 1 < 2 by decide)
  cases d with
  | unregistered => exact above_nil
  | unknownUID => exact above_locked hrm (above_log (by decide))
  | reply r => exact above_locked hrm ((above_log (by decide)).append (above_onNBDResponse r))

theorem above_onMirrorResponse (m t : ℕ) (b : MirrorBranch) :
    Above Mutex.rank (fun h => h.rank ≤ (Mutex.minionProxy m).rank) (onMirrorResponse t b) := by
  have htick : ∀ h : Mutex, h.rank ≤ (Mutex.minionProxy m).rank →
      h.rank < (Mutex.ticket t).rank := fun h hh => Nat.lt_of_le_of_lt hh (show 0 < 1 by decide)
  cases b with
  | incomplete => exact above_leaf htick
  | completes d => exact above_locked htick (above_onTicketDone t d)

section Calls

/-- Between its nested sections a call holds nothing. -/
theorem above_free {l : Mutex} : Above Mutex.rank (fun _ => False) (locked l []) :=
  above_leaf fun _ hh => hh.elim

theorem above_freeLog {l : Mutex} (hl : l.rank < 4) :
    Above Mutex.rank (fun _ => False) (locked l log) :=
  above_locked (fun _ hh => hh.elim) (above_log hl)

theorem above_onMinionFDWakeUp (m : ℕ) (b : WakeUpBranch) :
    Above Mutex.rank (fun _ => False) (onMinionFDWakeUp m b) := by
  cases b with
  | receiveThrows => exact above_free
  | refused => exact above_freeLog (show 0 < 4 by decide)
  | unknownType => exact above_free.append above_free
  | unknownUID =>
    exact above_free.append (above_free.append (above_freeLog (show 0 < 4 by decide)))
  | answer t b =>
    exact above_free.append (above_free.append
      (above_locked (fun _ hh => hh.elim) (above_onMirrorResponse m t b)))

theorem above_getTaskArgs (b : RequestBranch) :
    Above Mutex.rank (fun _ => False) (getTaskArgs b) := by
  cases b with
  | headerThrows => exact above_free
  | payloadThrows => exact above_free.append above_free
  | nonRW => exact above_free.append (above_free.append above_free)
  | read => exact above_free.append (above_free.append (above_free.append above_free))
  | write =>
    exact above_free.append (above_free.append
      (above_free.append (above_free.append above_free)))

theorem above_flatMap {addTask : ℕ → Path}
    (h : ∀ m, Above Mutex.rank (fun _ => False) (addTask m)) (minions : List ℕ) :
    Above Mutex.rank (fun _ => False) (minions.flatMap addTask) := by
  induction minions with
  | nil => exact above_nil
  | cons m minions ih => exact (h m).append ih

theorem above_runTask {addTask : ℕ → Path}
    (h : ∀ m, Above Mutex.rank (fun _ => False) (addTask m)) (b : TaskBranch) :
    Above Mutex.rank (fun _ => False) (runTask addTask b) := by
  cases b with
  | noCommand => exact above_free.append above_free
  | outOfRange => exact above_free.append above_free
  | sends minions throwing =>
    refine above_free.append (above_free.append ((above_flatMap h minions).append ?_))
    cases throwing with
    | none => exact above_nil
    | some m => exact above_free.append above_free

theorem ordered_path (c : Call) : Ordered Mutex.rank [] c.path := by
  apply Above.ordered
  cases c with
  | getTaskArgs b => exact above_getTaskArgs b
  | onMinionFDWakeUp m b => exact above_onMinionFDWakeUp m b
  | readTask b => exact above_runTask (fun _ => above_free.append above_free) b
  | writeTask b => exact above_runTask (fun _ => above_free) b
  | popLog => exact above_free

end Calls

/-- In no state that the reactors, the workers and the logger can reach does a thread wait for
a mutex it holds, or a chain of threads that hold one mutex and wait for the next
lead back to itself. -/
theorem locks_never_deadlock (es : List (LockEvent ThreadId Call))
    (s : LockState ThreadId Mutex)
    (h : run (LockState.step Call.path) OwnCalls es LockState.init = some s) :
    (∀ t, ¬ s.WaitsFor t t) ∧ ¬ s.Deadlocked := by
  have hfree : ¬ s.Deadlocked := run_not_deadlocked ordered_path h
  exact ⟨fun t hself => hfree ⟨t, .single hself⟩, hfree⟩

/-- A worker wants a proxy's mutex while the reactor holds it down to the NBD proxy, which
the NBD reactor wants. -/
def contention : List (LockEvent ThreadId Call) :=
  .start .minionReactor (.onMinionFDWakeUp 0 (.answer 5 (.completes (.reply .sent)))) ::
    (List.replicate 10 (.next .minionReactor) ++
      [.start (.worker 3) (.writeTask (.sends [0] none)), .next (.worker 3), .next (.worker 3),
        .start .nbdReactor (.getTaskArgs .read)])

theorem locks_never_deadlock_contention :
    ∃ s, run (LockState.step Call.path) OwnCalls contention LockState.init = some s ∧
      s.holder .nbdProxy = some .minionReactor ∧ ¬ s.Deadlocked := by
  have hrun : (run (LockState.step Call.path) OwnCalls contention LockState.init).map
      (fun s => s.holder .nbdProxy) = some (some .minionReactor) := by decide
  obtain ⟨s, hs, hholder⟩ := Option.map_eq_some_iff.mp hrun
  exact ⟨s, hs, hholder, (locks_never_deadlock contention s hs).2⟩

end IoTDrive.Master.Locks
