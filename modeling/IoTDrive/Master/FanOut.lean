import IoTDrive.Master.Ticket
import IoTDrive.Stripe.Placement

/-! The fan-out of one request. `AddReadTask` and `AddWriteTask` check the range, split
the request, create its ticket and then send one datagram to the primary and one
to the backup of every segment, in this order. The sends of a request are listed
here; the system model performs them one at a time. -/

namespace IoTDrive.Master

open Message Stripe

/-- One call of `MinionProxy::AddReadTask` or `AddWriteTask`: the minion it goes to, the
message it sends and the ticket slot its callback reports to. -/
structure SendOp where
  minion : ℕ
  segIdx : ℕ
  role : MirrorRole
  message : AMessage
  deriving DecidableEq, Repr

/-- The slice of the buffer a write segment carries. -/
def slice (data : List UInt8) (s : StripeSegment) : List UInt8 :=
  (data.drop s.bufferOffset).take s.length

/-- The message of one segment. -/
def segmentMessage (op : TicketOp) (uid : UID) (data : List UInt8) (s : StripeSegment) :
    AMessage :=
  match op with
  | .read => .readSend uid (UInt64.ofNat s.localOffset) (UInt64.ofNat s.length)
  | .write => .writeSend uid (UInt64.ofNat s.localOffset) (UInt64.ofNat s.length)
      (some (slice data s))

/-- The body of the loop, for the segment with index `i`. -/
def segmentSends (op : TicketOp) (uid : UID) (data : List UInt8) (p : StripeSegment × ℕ) :
    List SendOp :=
  [⟨p.1.primaryMinionIndex, p.2, .primary, segmentMessage op uid data p.1⟩,
    ⟨p.1.backupMinionIndex, p.2, .backup, segmentMessage op uid data p.1⟩]

/-- The sends of the whole loop, in order. -/
def fanOut (op : TicketOp) (uid : UID) (data : List UInt8) (segs : List StripeSegment) :
    List SendOp :=
  segs.zipIdx.flatMap (segmentSends op uid data)

/-- `AddReadTask` and `AddWriteTask` up to the loop, and the sends of the loop. -/
def addTask (M : MinionManager) (op : TicketOp) (uid : UID) (offset length : ℕ)
    (data : List UInt8) : Except String (Ticket × List SendOp) := do
  M.validateRange offset length
  let segs := M.segments offset length
  return (Ticket.create uid op length segs, fanOut op uid data segs)

def addReadTask (M : MinionManager) (uid : UID) (offset length : ℕ) :
    Except String (Ticket × List SendOp) := addTask M .read uid offset length []

def addWriteTask (M : MinionManager) (uid : UID) (offset length : ℕ) (buffer : List UInt8) :
    Except String (Ticket × List SendOp) := addTask M .write uid offset length buffer

theorem addTask_inRange {M : MinionManager} {offset length : ℕ} (h : M.InRange offset length)
    (op : TicketOp) (uid : UID) (data : List UInt8) :
    addTask M op uid offset length data = .ok (Ticket.create uid op length
      (M.segments offset length), fanOut op uid data (M.segments offset length)) := by
  simp only [addTask, h.validateRange]
  rfl

/-- What `addTask` returns when it does not throw. -/
theorem addTask_ok {M : MinionManager} {op : TicketOp} {uid : UID} {offset length : ℕ}
    {data : List UInt8} {t : Ticket} {ops : List SendOp}
    (h : addTask M op uid offset length data = .ok (t, ops)) :
    M.validateRange offset length = .ok () ∧
      t = Ticket.create uid op length (M.segments offset length) ∧
      ops = fanOut op uid data (M.segments offset length) := by
  unfold addTask at h
  cases hv : M.validateRange offset length with
  | error e => rw [hv] at h; cases h
  | ok _ => rw [hv] at h; cases h; exact ⟨rfl, rfl, rfl⟩

/-- The minion of a segment's mirror. -/
def roleMinion (s : StripeSegment) : MirrorRole → ℕ
  | .primary => s.primaryMinionIndex
  | .backup => s.backupMinionIndex

/-- The sends are one per segment and mirror. -/
theorem mem_fanOut {op : TicketOp} {uid : UID} {data : List UInt8} {segs : List StripeSegment}
    {o : SendOp} : o ∈ fanOut op uid data segs ↔
      ∃ s, segs[o.segIdx]? = some s ∧ o.minion = roleMinion s o.role ∧
        o.message = segmentMessage op uid data s := by
  simp only [fanOut, List.mem_flatMap, segmentSends, Prod.exists, List.mem_zipIdx_iff_getElem?,
    List.mem_cons, List.not_mem_nil, or_false]
  constructor
  · rintro ⟨s, i, hs, rfl | rfl⟩
    · exact ⟨s, hs, rfl, rfl⟩
    · exact ⟨s, hs, rfl, rfl⟩
  · rintro ⟨s, hs, hm, hmsg⟩
    refine ⟨s, o.segIdx, hs, ?_⟩
    obtain ⟨minion, i, role, message⟩ := o
    cases role with
    | primary => exact .inl (by simp_all [roleMinion])
    | backup => exact .inr (by simp_all [roleMinion])

end IoTDrive.Master
