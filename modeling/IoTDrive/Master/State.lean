import IoTDrive.Master.Routing

/-! The master as a whole. A request passes through `NBDProxy::GetTaskArgs`, which keeps
its reply, `ResponseManager::OnNewTask`, and a command on the thread pool, which
checks the range, creates the ticket, announces it and sends. Each of these steps is
one transition, and requests may be at different places at the same time. An answer
that wakes up a proxy runs the callback found there: the ticket stores it and, when
it completes, `OnTicketDone` and `OnNBDResponse` write the reply to the NBD socket.
What is written stays in order; a byte without a value is indeterminate. Sends to
the NBD socket succeed. -/

namespace IoTDrive.Master

open Lib Message Stripe

/-- What `GetTaskArgs` takes from an `nbd_request`, with the payload of a write. -/
structure Request where
  handle : List UInt8
  op : TicketOp
  offset : UInt64
  length : UInt32
  data : List UInt8
  handle_length : handle.length = 8
  data_length : data.length = if op = .write then length.toNat else 0

/-- Requests whose handle is a small number. -/
def Request.smallRead (last : UInt8) (offset : UInt64) (length : UInt32) : Request :=
  ⟨[0, 0, 0, 0, 0, 0, 0, last], .read, offset, length, [], rfl, rfl⟩

def Request.smallWrite (last : UInt8) (offset : UInt64) (length : UInt32) (data : List UInt8)
    (h : data.length = length.toNat) : Request :=
  ⟨[0, 0, 0, 0, 0, 0, 0, last], .write, offset, length, data, rfl, h⟩

/-- `nbd_reply`; the magic word is constant. -/
structure NbdReply where
  error : ℕ
  handle : List UInt8
  deriving DecidableEq, Repr

/-- `EIO`. -/
def eio : ℕ := 5

/-- The sixteen bytes of a reply header: magic, error and handle in network order. -/
def NbdReply.header (r : NbdReply) : List UInt8 :=
  beBytes 4 0x67446698 ++ (beBytes 4 r.error ++ r.handle)

/-- The data `OnNBDResponse` sends behind the header: the buffer of a successful read. -/
def TaskResult.payload (result : TaskResult) : List (Option UInt8) :=
  match result.result, result.buffer with
  | true, some b => memRead b (fun _ => none) result.length
  | _, _ => []

/-- What `OnNBDResponse` writes for a result. -/
def NbdReply.bytes (r : NbdReply) (result : TaskResult) : List (Option UInt8) :=
  (header ⟨if result.result then r.error else eio, r.handle⟩).map some ++ result.payload

/-- How far a request has come: its reply is stored, its UID is known to the response
manager, its ticket is in the table, the ticket is announced and the sends run, or
the command was ended by an exception. -/
inductive Phase where
  | received | queued | created | sending | aborted
  deriving DecidableEq, Repr

/-- A request at the master. `ops` are the sends of its loop and `sent` is the loop
counter. -/
structure Job where
  uid : UID
  req : Request
  phase : Phase
  ticket : Option Ticket
  ops : List SendOp
  sent : ℕ

namespace Job

/-- The ticket has completed, so the request has been replied. -/
def completed (job : Job) : Bool := job.ticket.any Ticket.completed

/-- The segments of the request. -/
def segments (M : MinionManager) (job : Job) : List StripeSegment :=
  M.segments job.req.offset.toNat job.req.length.toNat

/-- The command has run to its end, or to an exception. -/
def commandDone (job : Job) : Bool :=
  job.phase == .aborted || (job.phase == .sending && job.sent == job.ops.length)

end Job

/-- A datagram on the network: the minion it goes to or comes from, and its bytes. The
origin names the request and the send it belongs to; no one reads it. -/
structure Packet where
  minion : ℕ
  origin : Option (ℕ × ℕ)
  bytes : List UInt8
  deriving DecidableEq, Repr

/-- The master's tables. A ticket is named by the number of its request. -/
structure MasterState where
  jobs : List Job
  responses : UID → Option NbdReply
  requests : UID → Bool
  tickets : UID → Option ℕ
  proxies : ℕ → MinionProxy Callback
  nbdOut : List (Option UInt8)

namespace MasterState

def init : MasterState := ⟨[], fun _ => none, fun _ => false, fun _ => none,
  fun _ => MinionProxy.empty, []⟩

def setJob (s : MasterState) (j : ℕ) (job : Job) : MasterState :=
  { s with jobs := s.jobs.set j job }

def withProxy (s : MasterState) (m : ℕ) (p : MinionProxy Callback) : MasterState :=
  { s with proxies := Function.update s.proxies m p }

/-- `NBDProxy::GetTaskArgs` for a READ or WRITE, up to the notification. `emplace` keeps
an entry that is already there. -/
def getTaskArgs (s : MasterState) (req : Request) (uid : UID) : MasterState :=
  { s with
    jobs := s.jobs ++ [⟨uid, req, .received, none, [], 0⟩]
    responses := Function.update s.responses uid
      (some ((s.responses uid).getD ⟨0, req.handle⟩)) }

/-- `ResponseManager::OnNewTask`. -/
def onNewTask (s : MasterState) (uid : UID) : MasterState :=
  { s with requests := Function.update s.requests uid true }

/-- `NBDProxy::OnNBDResponse`. -/
def onNBDResponse (s : MasterState) (result : TaskResult) : MasterState :=
  match s.responses result.uid with
  | none => s
  | some reply =>
    { s with
      responses := Function.update s.responses result.uid none
      nbdOut := s.nbdOut ++ reply.bytes result }

/-- `ResponseManager::OnTicketDone`. -/
def onTicketDone (s : MasterState) (result : TaskResult) : MasterState :=
  if s.requests result.uid then
    onNBDResponse { s with
      tickets := Function.update s.tickets result.uid none
      requests := Function.update s.requests result.uid false } result
  else s

/-- The next step of a request that has been received: `OnNewTask`; `AddReadTask` or
`AddWriteTask` up to the announcement, whose exceptions the command catches; the two
halves of `OnTicketCreate`; one send of the loop. A minion index outside the list and
an encoder that leaves its buffer have no defined result. -/
def advance (M : MinionManager) (s : MasterState) (j : ℕ) (sendOk : Bool) (beyond : ℕ → UInt8) :
    Option (MasterState × Option Packet) := do
  let job ← s.jobs[j]?
  match job.phase with
  | .received => return ((s.onNewTask job.uid).setJob j { job with phase := .queued }, none)
  | .queued =>
    match addTask M job.req.op job.uid job.req.offset.toNat job.req.length.toNat job.req.data with
    | .error _ => return (s.setJob j { job with phase := .aborted }, none)
    | .ok (t, ops) =>
      return ({ s.setJob j { job with phase := .created, ticket := some t, ops := ops } with
        tickets := Function.update s.tickets job.uid (some j) }, none)
  | .created =>
    return (s.setJob j { job with
      phase := .sending
      ticket := job.ticket.map Ticket.registerToResultDispatcher }, none)
  | .sending =>
    let o ← job.ops[job.sent]?
    if M.numMinions ≤ o.minion then none
    else
      let d ← o.message.datagram beyond
      let s' := s.withProxy o.minion ((s.proxies o.minion).register job.uid (o.onDone j))
      if sendOk then
        return (s'.setJob j { job with sent := job.sent + 1 },
          some ⟨o.minion, some (j, job.sent), d⟩)
      else return (s'.setJob j { job with phase := .aborted }, none)
  | .aborted => none

/-- `ticket->OnMirrorResponse(segIdx, role, message)`, and the notification of every
listener when it completes the ticket. -/
def onMirrorResponse (s : MasterState) (cb : Callback) (message : AMessage) : MasterState :=
  match s.jobs[cb.ticket]? with
  | none => s
  | some job =>
    match job.ticket with
    | none => s
    | some t =>
      let r := t.onMirrorResponse cb.segIdx cb.role (some message)
      let s' := s.setJob cb.ticket { job with ticket := some r.1 }
      match r.2 with
      | none => s'
      | some result => (fun s => onTicketDone s result)^[t.listeners] s'

/-- `OnMinionFDWakeUp` on the proxy of minion `m`, with the call it makes. -/
def wakeUp (s : MasterState) (m : ℕ) (stack : ℕ → UInt8) (d : List UInt8) : Option MasterState :=
  match (s.proxies m).onMinionFDWakeUp stack d with
  | (_, .refused) => some s
  | (_, .unknownUID _) => some s
  | (_, .crash) => none
  | (p, .invoke cb message) =>
    some ((s.withProxy m p).onMirrorResponse cb message)

/-- What can happen at the master. -/
inductive Action where
  | getTaskArgs (req : Request) (uid : UID)
  | advance (j : ℕ) (sendOk : Bool) (beyond : ℕ → UInt8)
  | wakeUp (m : ℕ) (stack : ℕ → UInt8) (d : List UInt8)

def step (M : MinionManager) (s : MasterState) : Action → Option MasterState
  | .getTaskArgs req uid => some (s.getTaskArgs req uid)
  | .advance j sendOk beyond => (s.advance M j sendOk beyond).map Prod.fst
  | .wakeUp m stack d => s.wakeUp m stack d

/-! ### What an answer leaves alone -/

variable {s : MasterState} {result : TaskResult}

theorem onTicketDone_frame (s : MasterState) (result : TaskResult) :
    (s.onTicketDone result).jobs = s.jobs ∧ (s.onTicketDone result).proxies = s.proxies := by
  unfold onTicketDone onNBDResponse
  split
  · split <;> exact ⟨rfl, rfl⟩
  · exact ⟨rfl, rfl⟩

theorem notify_frame (result : TaskResult) (n : ℕ) (s : MasterState) :
    ((fun s => onTicketDone s result)^[n] s).jobs = s.jobs ∧
      ((fun s => onTicketDone s result)^[n] s).proxies = s.proxies := by
  induction n generalizing s with
  | zero => exact ⟨rfl, rfl⟩
  | succ n ih =>
    rw [Function.iterate_succ_apply, (ih _).1, (ih _).2]
    exact onTicketDone_frame s result

/-- An answer changes one ticket and no callback. -/
theorem onMirrorResponse_frame (cb : Callback) {job : Job} {t : Ticket} (msg : AMessage)
    (hj : s.jobs[cb.ticket]? = some job) (ht : job.ticket = some t) :
    (s.onMirrorResponse cb msg).jobs = s.jobs.set cb.ticket { job with
        ticket := some (t.onMirrorResponse cb.segIdx cb.role (some msg)).1 } ∧
      (s.onMirrorResponse cb msg).proxies = s.proxies := by
  simp only [onMirrorResponse, hj, ht]
  split
  · exact ⟨rfl, rfl⟩
  · exact notify_frame _ _ _

end MasterState

end IoTDrive.Master
