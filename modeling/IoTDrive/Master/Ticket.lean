import IoTDrive.Lib.Memory
import IoTDrive.Message.Codec
import IoTDrive.Stripe.Placement

/-! The ticket of one request. It keeps, for every segment and either mirror, whether
an answer has come and which one. A write segment is resolved by both answers, a
read segment by a successful primary or by any backup. At the first answer after
which every segment is resolved the ticket completes: it notifies its listeners
once, and later answers change nothing. A byte of the result buffer that no copy
has filled, or that was copied from behind the end of a payload, is
indeterminate. -/

namespace IoTDrive.Master

open Lib Message Stripe

inductive TicketOp where
  | read | write
  deriving DecidableEq, Repr

structure SegmentState where
  length : ℕ
  bufferOffset : ℕ
  primaryDone : Bool
  backupDone : Bool
  primaryMsg : Option AMessage
  backupMsg : Option AMessage
  deriving DecidableEq, Repr

/-- The notification of a completed ticket; a byte without a value is indeterminate. -/
structure TaskResult where
  uid : UID
  result : Bool
  length : ℕ
  buffer : Option (List (Option UInt8))
  deriving DecidableEq, Repr

/-- `listeners` counts the callbacks registered on the result dispatcher. -/
structure Ticket where
  uid : UID
  op : TicketOp
  totalLength : ℕ
  segments : List SegmentState
  completed : Bool
  listeners : ℕ
  deriving DecidableEq, Repr

/-- `msg && msg->GetResult()`. -/
def succeeded : Option AMessage → Bool
  | some m => m.getResult
  | none => false

namespace SegmentState

def ofSegment (s : StripeSegment) : SegmentState :=
  ⟨s.length, s.bufferOffset, false, false, none, none⟩

/-- Whether an answer of the mirror has come, and which. -/
def done (seg : SegmentState) : MirrorRole → Bool
  | .primary => seg.primaryDone
  | .backup => seg.backupDone

def msg (seg : SegmentState) : MirrorRole → Option AMessage
  | .primary => seg.primaryMsg
  | .backup => seg.backupMsg

def record (seg : SegmentState) (role : MirrorRole) (message : Option AMessage) : SegmentState :=
  match role with
  | .primary => { seg with primaryDone := true, primaryMsg := message }
  | .backup => { seg with backupDone := true, backupMsg := message }

def isSegmentResolved (op : TicketOp) (seg : SegmentState) : Bool :=
  match op with
  | .write => seg.primaryDone && seg.backupDone
  | .read => if seg.primaryDone && succeeded seg.primaryMsg then true else seg.backupDone

def selectSegmentMessage (seg : SegmentState) : Option AMessage :=
  if seg.primaryDone && succeeded seg.primaryMsg then seg.primaryMsg
  else if seg.backupDone then seg.backupMsg
  else seg.primaryMsg

def isSegmentSuccessful (op : TicketOp) (seg : SegmentState) : Bool :=
  match op with
  | .write => succeeded seg.primaryMsg && succeeded seg.backupMsg
  | .read => succeeded seg.selectSegmentMessage

/-- The `memcpy` of one segment into the result buffer. -/
def copyTo (buf : List (Option UInt8)) (seg : SegmentState) : List (Option UInt8) :=
  match seg.selectSegmentMessage.bind AMessage.getData with
  | some data =>
    writeAt none buf seg.bufferOffset (memRead (data.map some) (fun _ => none) seg.length)
  | none => buf

@[simp] theorem record_length (seg : SegmentState) (r : MirrorRole) (m : Option AMessage) :
    (seg.record r m).length = seg.length := by cases r <;> rfl

@[simp] theorem record_bufferOffset (seg : SegmentState) (r : MirrorRole) (m : Option AMessage) :
    (seg.record r m).bufferOffset = seg.bufferOffset := by cases r <;> rfl

theorem record_done (seg : SegmentState) (r q : MirrorRole) (m : Option AMessage) :
    (seg.record r m).done q = if q = r then true else seg.done q := by
  cases r <;> cases q <;> rfl

theorem record_msg (seg : SegmentState) (r q : MirrorRole) (m : Option AMessage) :
    (seg.record r m).msg q = if q = r then m else seg.msg q := by
  cases r <;> cases q <;> rfl

@[simp] theorem ofSegment_done (s : StripeSegment) (r : MirrorRole) :
    (ofSegment s).done r = false := by cases r <;> rfl

end SegmentState

open SegmentState

namespace Ticket

/-- The constructor. -/
def create (uid : UID) (op : TicketOp) (totalLength : ℕ) (segs : List StripeSegment) : Ticket :=
  ⟨uid, op, totalLength, segs.map SegmentState.ofSegment, false, 0⟩

/-- A new ticket with a segment waits for an answer. -/
theorem create_unresolved (uid : UID) (op : TicketOp) (n : ℕ) {segs : List StripeSegment}
    (h : segs ≠ []) :
    (create uid op n segs).segments.all (isSegmentResolved op) = false := by
  obtain ⟨s, rest, rfl⟩ := List.exists_cons_of_ne_nil h
  cases op <;> rfl

def registerToResultDispatcher (t : Ticket) : Ticket := { t with listeners := t.listeners + 1 }

/-- The result `TryComplete` announces. -/
def outcome (t : Ticket) : TaskResult where
  uid := t.uid
  result := t.segments.all (isSegmentSuccessful t.op)
  length := t.totalLength
  buffer :=
    if t.segments.all (isSegmentSuccessful t.op) && t.op == .read then
      some (t.segments.foldl copyTo (List.replicate t.totalLength none))
    else none

/-- `TryComplete`: the ticket, and what the listeners are told. -/
def tryComplete (t : Ticket) : Ticket × Option TaskResult :=
  if t.segments.all (isSegmentResolved t.op) then ({ t with completed := true }, some t.outcome)
  else (t, none)

/-- The answer stored in its slot. -/
def store (t : Ticket) (segmentIdx : ℕ) (role : MirrorRole) (message : Option AMessage) :
    Ticket := { t with segments := t.segments.modify segmentIdx (·.record role message) }

def onMirrorResponse (t : Ticket) (segmentIdx : ℕ) (role : MirrorRole)
    (message : Option AMessage) : Ticket × Option TaskResult :=
  if t.completed || decide (t.segments.length ≤ segmentIdx) then (t, none)
  else (t.store segmentIdx role message).tryComplete

/-! ### What an answer can do -/

variable {t : Ticket} {i : ℕ} {r : MirrorRole} {m : Option AMessage}

theorem onMirrorResponse_completed (h : t.completed = true) :
    t.onMirrorResponse i r m = (t, none) := by simp [onMirrorResponse, h]

/-- An answer is ignored, stored, or stored and the ticket completed. -/
theorem onMirrorResponse_cases (t : Ticket) (i : ℕ) (r : MirrorRole) (m : Option AMessage) :
    (t.completed = true ∨ t.segments.length ≤ i) ∧ t.onMirrorResponse i r m = (t, none) ∨
      t.completed = false ∧ i < t.segments.length ∧
        ((t.store i r m).segments.all (isSegmentResolved t.op) = false ∧
            t.onMirrorResponse i r m = (t.store i r m, none) ∨
          (t.store i r m).segments.all (isSegmentResolved t.op) = true ∧
            t.onMirrorResponse i r m =
              ({ t.store i r m with completed := true }, some (t.store i r m).outcome)) := by
  have hop : (t.store i r m).op = t.op := rfl
  by_cases hc : t.completed = true
  · exact .inl ⟨.inl hc, onMirrorResponse_completed hc⟩
  by_cases hi : t.segments.length ≤ i
  · exact .inl ⟨.inr hi, by simp [onMirrorResponse, hi]⟩
  refine .inr ⟨by simpa using hc, by omega, ?_⟩
  have hstep : t.onMirrorResponse i r m = (t.store i r m).tryComplete := by
    simp [onMirrorResponse, hc, hi]
  rw [hstep, tryComplete, hop]
  cases ha : (t.store i r m).segments.all (isSegmentResolved t.op) with
  | true => exact .inr ⟨rfl, by simp [hop]⟩
  | false => exact .inl ⟨rfl, by simp⟩

/-- The fields no answer touches. -/
theorem onMirrorResponse_frame (t : Ticket) (i : ℕ) (r : MirrorRole) (m : Option AMessage) :
    (t.onMirrorResponse i r m).1.uid = t.uid ∧ (t.onMirrorResponse i r m).1.op = t.op ∧
      (t.onMirrorResponse i r m).1.totalLength = t.totalLength ∧
      (t.onMirrorResponse i r m).1.listeners = t.listeners := by
  rcases onMirrorResponse_cases t i r m with ⟨-, h⟩ | ⟨-, -, ⟨-, h⟩ | ⟨-, h⟩⟩ <;>
    simp [h, store]

/-- An answer keeps the places of the segments in the buffer. -/
theorem onMirrorResponse_shape (t : Ticket) (i : ℕ) (r : MirrorRole) (m : Option AMessage) :
    (t.onMirrorResponse i r m).1.segments.map (fun g => (g.length, g.bufferOffset)) =
      t.segments.map fun g => (g.length, g.bufferOffset) := by
  have hstore : (t.store i r m).segments.map (fun g => (g.length, g.bufferOffset)) =
      t.segments.map fun g => (g.length, g.bufferOffset) := by
    apply List.ext_getElem?
    intro k
    simp only [store, List.getElem?_map, List.getElem?_modify]
    cases t.segments[k]? with
    | none => rfl
    | some g => by_cases hk : i = k <;> simp [hk]
  rcases onMirrorResponse_cases t i r m with ⟨-, h⟩ | ⟨-, -, ⟨-, h⟩ | ⟨-, h⟩⟩
  · rw [h]
  · rw [h]; exact hstore
  · rw [h]; exact hstore

theorem onMirrorResponse_monotone (h : t.completed = true) :
    (t.onMirrorResponse i r m).1.completed = true := by
  rw [onMirrorResponse_completed h, h]

theorem getElem?_store {k : ℕ} {g : SegmentState} (hg : t.segments[k]? = some g) :
    (t.store i r m).segments[k]? = some (if i = k then g.record r m else g) := by
  simp only [store, List.getElem?_modify, hg]
  split_ifs <;> rfl

/-- The segments after an answer: the stored ones, unless it was ignored. -/
theorem onMirrorResponse_segments (hc : t.completed = false) (hi : i < t.segments.length) :
    (t.onMirrorResponse i r m).1.segments = (t.store i r m).segments := by
  rcases onMirrorResponse_cases t i r m with ⟨h | h, -⟩ | ⟨-, -, ⟨-, h⟩ | ⟨-, h⟩⟩
  · simp [hc] at h
  · omega
  · rw [h]
  · rw [h]

/-- An answered mirror stays answered. -/
theorem onMirrorResponse_done {k : ℕ} {g : SegmentState} (q : MirrorRole)
    (hg : t.segments[k]? = some g) (hd : g.done q = true) :
    ∃ g', (t.onMirrorResponse i r m).1.segments[k]? = some g' ∧ g'.done q = true := by
  have hstore : ∃ g', (t.store i r m).segments[k]? = some g' ∧ g'.done q = true := by
    refine ⟨_, getElem?_store hg, ?_⟩
    split_ifs with hk
    · rw [record_done]
      split_ifs <;> simp [hd]
    · exact hd
  rcases onMirrorResponse_cases t i r m with ⟨-, h⟩ | ⟨-, -, ⟨-, h⟩ | ⟨-, h⟩⟩
  · exact ⟨g, by rw [h]; exact hg, hd⟩
  · rw [h]; exact hstore
  · rw [h]; exact hstore

/-- The answer in a slot is the one that has just come, or was there before. -/
theorem onMirrorResponse_msg {k : ℕ} {g : SegmentState} {q : MirrorRole}
    (hg : (t.onMirrorResponse i r m).1.segments[k]? = some g) (hd : g.done q = true) :
    i = k ∧ q = r ∧ g.msg q = m ∨
      ∃ g₀, t.segments[k]? = some g₀ ∧ g₀.done q = true ∧ g.msg q = g₀.msg q := by
  have hstored : (t.store i r m).segments[k]? = some g → i = k ∧ q = r ∧ g.msg q = m ∨
      ∃ g₀, t.segments[k]? = some g₀ ∧ g₀.done q = true ∧ g.msg q = g₀.msg q := by
    intro hst
    cases hg₀ : t.segments[k]? with
    | none => simp [store, List.getElem?_modify, hg₀] at hst
    | some g₀ =>
      rw [getElem?_store hg₀, Option.some.injEq] at hst
      subst hst
      split_ifs at hd ⊢ with hk
      · rw [record_done] at hd
        rw [record_msg]
        split_ifs at hd ⊢ with hq
        · exact .inl ⟨hk, hq, rfl⟩
        · exact .inr ⟨g₀, rfl, hd, rfl⟩
      · exact .inr ⟨g₀, rfl, hd, rfl⟩
  rcases onMirrorResponse_cases t i r m with ⟨-, h⟩ | ⟨-, -, ⟨-, h⟩ | ⟨-, h⟩⟩
  · exact .inr ⟨g, by rw [h] at hg; exact hg, hd, rfl⟩
  · exact hstored (by rw [h] at hg; exact hg)
  · exact hstored (by rw [h] at hg; exact hg)

/-- A ticket that is not complete has a segment that is not resolved. -/
theorem onMirrorResponse_unresolved (hu : t.segments.all (isSegmentResolved t.op) = false)
    (hc : (t.onMirrorResponse i r m).1.completed = false) :
    (t.onMirrorResponse i r m).1.segments.all
      (isSegmentResolved (t.onMirrorResponse i r m).1.op) = false := by
  rcases onMirrorResponse_cases t i r m with ⟨-, h⟩ | ⟨-, -, ⟨hn, h⟩ | ⟨-, h⟩⟩
  · rw [h]; exact hu
  · rw [h]; exact hn
  · simp [h] at hc

/-- A notification completes the ticket and announces the outcome of its final
segments. -/
theorem onMirrorResponse_some {res : TaskResult} {t' : Ticket}
    (h : t.onMirrorResponse i r m = (t', some res)) :
    t.completed = false ∧ t'.completed = true ∧ res = t'.outcome := by
  rcases onMirrorResponse_cases t i r m with ⟨-, e⟩ | ⟨hc, -, ⟨-, e⟩ | ⟨-, e⟩⟩
  · simp [e] at h
  · simp [e] at h
  · rw [e, Prod.mk.injEq, Option.some.injEq] at h
    obtain ⟨rfl, rfl⟩ := h
    exact ⟨hc, rfl, rfl⟩

theorem onMirrorResponse_none {t' : Ticket} (h : t.onMirrorResponse i r m = (t', none)) :
    t'.completed = t.completed := by
  rcases onMirrorResponse_cases t i r m with ⟨-, e⟩ | ⟨-, -, ⟨-, e⟩ | ⟨-, e⟩⟩
  · rw [e, Prod.mk.injEq] at h; rw [h.1]
  · rw [e, Prod.mk.injEq] at h; rw [← h.1]; rfl
  · simp [e] at h

/-! ### Outcomes -/

/-- A resolved read segment all of whose answers are one successful message selects it. -/
theorem select_of_resolved {g : SegmentState} {msg : AMessage}
    (hres : isSegmentResolved .read g = true) (hm : ∀ q, g.done q = true → g.msg q = some msg)
    (hok : msg.getResult = true) : g.selectSegmentMessage = some msg := by
  have hprim := hm .primary
  have hback := hm .backup
  simp only [SegmentState.done, SegmentState.msg] at hprim hback
  cases hp : g.primaryDone with
  | true =>
    rw [hp] at hprim
    simp [selectSegmentMessage, hp, hprim rfl, succeeded, hok]
  | false =>
    have hb : g.backupDone = true := by simpa [isSegmentResolved, hp] using hres
    simp [selectSegmentMessage, hp, hb, hback hb]

theorem successful_of_resolved {g : SegmentState} {op : TicketOp} {msg : AMessage}
    (hres : isSegmentResolved op g = true) (hm : ∀ q, g.done q = true → g.msg q = some msg)
    (hok : msg.getResult = true) : isSegmentSuccessful op g = true := by
  cases op with
  | read => simp [isSegmentSuccessful, select_of_resolved hres hm hok, succeeded, hok]
  | write =>
    have hboth : g.primaryDone = true ∧ g.backupDone = true := by
      simpa [isSegmentResolved] using hres
    have hprim : g.primaryMsg = some msg := hm .primary hboth.1
    have hback : g.backupMsg = some msg := hm .backup hboth.2
    simp [isSegmentSuccessful, hprim, hback, succeeded, hok]

/-- The `memcpy` of a segment whose answer carries the values of a table. -/
theorem copyTo_eq {g : SegmentState} {msg : AMessage} {v : ℕ → UInt8}
    (hsel : g.selectSegmentMessage = some msg)
    (hdata : msg.getData = some ((List.range' g.bufferOffset g.length).map v))
    (buf : List (Option UInt8)) :
    copyTo buf g = writeAt none buf g.bufferOffset
      ((List.range' g.bufferOffset g.length).map fun k => some (v k)) := by
  have hmem : memRead (((List.range' g.bufferOffset g.length).map v).map some) (fun _ => none)
      g.length = (List.range' g.bufferOffset g.length).map fun k => some (v k) := by
    rw [memRead_of_le _ (by simp), List.take_of_length_le (by simp), List.map_map]
    rfl
  simp only [copyTo, hsel, Option.bind_some, hdata, hmem]

/-- The buffer of a read all of whose segments carry the values of a table. -/
theorem gather_eq {v : ℕ → UInt8}
    (hsel : ∀ g ∈ t.segments, ∃ msg, g.selectSegmentMessage = some msg ∧
      msg.getData = some ((List.range' g.bufferOffset g.length).map v))
    (hin : ∀ g ∈ t.segments, g.bufferOffset + g.length ≤ t.totalLength)
    (hcover : t.segments.flatMap (fun g => List.range' g.bufferOffset g.length) =
      List.range t.totalLength) :
    t.segments.foldl copyTo (List.replicate t.totalLength none) =
      (List.range t.totalLength).map fun k => some (v k) := by
  obtain ⟨hlen, hval⟩ := foldl_writeAt (f := copyTo) (v := fun k => some (v k))
    (fun g hg => ⟨hin g hg, fun buf => by
      obtain ⟨msg, hs, hd⟩ := hsel g hg
      exact copyTo_eq hs hd buf⟩)
    (List.length_replicate (a := (none : Option UInt8)) (n := t.totalLength))
  apply List.ext_getElem?
  intro i
  rcases Nat.lt_or_ge i t.totalLength with hi | hi
  · rw [hval i hi (.inl (by rw [hcover]; simpa using hi))]
    simp [hi]
  · rw [List.getElem?_eq_none (by omega), List.getElem?_eq_none (by simpa using hi)]

end Ticket

end IoTDrive.Master
