import IoTDrive.Lib.Counting
import IoTDrive.Lib.Transition
import IoTDrive.Nbd.ReplyStream

/-! The NBD socket with the mutexes that are held across its calls. `GetTaskArgs` holds
`NBDProxy::m_mtx` while it waits for bytes of a request, `OnTicketDone` holds
`ResponseManager::m_mtx` and, in `OnNBDResponse`, `NBDProxy::m_mtx` while it waits for room
for bytes of a reply. Both directions have a buffer of bounded size. A client that goes on
reading replies whatever it writes is never kept waiting for good. The workers of the pool
have `ResponseManager::m_mtx` for one insertion at a time and play no part. -/

namespace IoTDrive.Nbd.Blocking

open Lib Master

/-- Where the NBD reactor thread is, with the request whose bytes it takes: in `Listen`; before
or in `Receive` for the header and for the payload; before or at the insertion into
`m_responses`; before or in `OnNewTask`. -/
inductive Reader where
  | listens
  | locksHeader (r : ClientRequest)
  | header (r : ClientRequest) (left : ℕ)
  | locksPayload (r : ClientRequest)
  | payload (r : ClientRequest) (left : ℕ)
  | locksResponses (r : ClientRequest)
  | stores (r : ClientRequest)
  | locksRequests (r : ClientRequest)
  | announces (r : ClientRequest)

/-- Where the thread that completes tickets is, with the bytes of the reply: before
`OnTicketDone` has its mutex, before `OnNBDResponse` has its own, in `Send`. -/
inductive Replier where
  | idle
  | locksRequests (size : ℕ)
  | locksResponses (size : ℕ)
  | sends (left : ℕ)
  deriving DecidableEq

/-- The thread has `NBDProxy::m_mtx`. -/
def Reader.holdsResponses : Reader → Bool
  | .header .. | .payload .. | .stores _ => true
  | _ => false

/-- The thread has `ResponseManager::m_mtx`. -/
def Reader.holdsRequests : Reader → Bool
  | .announces _ => true
  | _ => false

def Replier.holdsResponses : Replier → Bool
  | .sends _ => true
  | _ => false

def Replier.holdsRequests : Replier → Bool
  | .locksResponses _ | .sends _ => true
  | _ => false

/-- `unwritten` bytes are still with the client, `incoming` and `outgoing` in the buffers of the
socket. The requests in `coming` have not been begun, those in `working` have been handed to
the pool. `issued` and `answered` count the reads and writes; no step reads them. -/
structure State where
  unwritten : ℕ
  incoming : ℕ
  outgoing : ℕ
  coming : List ClientRequest
  working : List ClientRequest
  reader : Reader
  replier : Replier
  issued : ℕ
  answered : ℕ

def State.init : State := ⟨0, 0, 0, [], [], .listens, .idle, 0, 0⟩

inductive Event where
  | issue (r : ClientRequest)
  /-- the client writes and reads `k` bytes -/
  | write (k : ℕ)
  | read (k : ℕ)
  /-- `recv` and `send` return `k` -/
  | recv (k : ℕ)
  | send (k : ℕ)
  /-- the other steps of the two threads -/
  | reader
  | replier
  /-- the last answer for a request at work arrives -/
  | complete (i : ℕ) (ok : Bool)

/-- The bytes of the reply. -/
def replyBytes (r : ClientRequest) (ok : Bool) : ℕ := replySize + r.dataSize (if ok then 0 else eio)

/-- `recv`, into the header or the payload. -/
def Reader.recv (k : ℕ) : Reader → Option Reader
  | .header r left => if k ≤ left then some (.header r (left - k)) else none
  | .payload r left => if k ≤ left then some (.payload r (left - k)) else none
  | _ => none

/-- The NBD reactor thread, outside `recv`; nothing where it waits. -/
def State.readerNext (s : State) : Option State :=
  match s.reader with
  | .listens =>
    match s.coming with
    | [] => none
    | r :: coming =>
      if 0 < s.incoming then some { s with coming := coming, reader := .locksHeader r } else none
  | .locksHeader r =>
    if s.replier.holdsResponses then none else some { s with reader := .header r requestSize }
  | .header _ (_ + 1) | .payload _ (_ + 1) => none
  | .header r 0 =>
    if r.cmd = .write then some { s with reader := .locksPayload r }
    else if r.cmd = .read then some { s with reader := .locksResponses r }
    else some { s with reader := .listens }
  | .locksPayload r =>
    if s.replier.holdsResponses then none else some { s with reader := .payload r r.data.length }
  | .payload r 0 => some { s with reader := .locksResponses r }
  | .locksResponses r =>
    if s.replier.holdsResponses then none else some { s with reader := .stores r }
  | .stores r => some { s with reader := .locksRequests r }
  | .locksRequests r =>
    if s.replier.holdsRequests then none else some { s with reader := .announces r }
  | .announces r => some { s with reader := .listens, working := s.working ++ [r] }

/-- The thread that replies, outside `send`. -/
def State.replierNext (s : State) : Option State :=
  match s.replier with
  | .idle | .sends (_ + 1) => none
  | .locksRequests size =>
    if s.reader.holdsRequests then none else some { s with replier := .locksResponses size }
  | .locksResponses size =>
    if s.reader.holdsResponses then none else some { s with replier := .sends size }
  | .sends 0 => some { s with replier := .idle, answered := s.answered + 1 }

/-- `roomIn` and `roomOut` are the sizes of the two buffers of the socket. -/
def step (roomIn roomOut : ℕ) (s : State) : Event → Option State
  | .issue r => some { s with
      unwritten := s.unwritten + r.wire.length
      coming := s.coming ++ [r]
      issued := s.issued + one r.isIo }
  | .write k =>
    if 0 < k ∧ k ≤ s.unwritten ∧ s.incoming + k ≤ roomIn then
      some { s with unwritten := s.unwritten - k, incoming := s.incoming + k }
    else none
  | .read k =>
    if 0 < k ∧ k ≤ s.outgoing then some { s with outgoing := s.outgoing - k } else none
  | .recv k =>
    if 0 < k ∧ k ≤ s.incoming then
      (s.reader.recv k).map fun reader => { s with incoming := s.incoming - k, reader := reader }
    else none
  | .send k =>
    match s.replier with
    | .sends left =>
      if 0 < k ∧ k ≤ left ∧ s.outgoing + k ≤ roomOut then
        some { s with outgoing := s.outgoing + k, replier := .sends (left - k) }
      else none
    | _ => none
  | .reader => s.readerNext
  | .replier => s.replierNext
  | .complete i ok =>
    if s.replier = .idle then
      (s.working[i]?).map fun r =>
        { s with working := s.working.eraseIdx i, replier := .locksRequests (replyBytes r ok) }
    else none

variable {roomIn roomOut : ℕ} {s s' : State} {e : Event}

/-! ### What a step can do -/

/-- The steps of the NBD reactor thread. -/
inductive Reads (s : State) : State → Prop
  | wakes {r : ClientRequest} {coming : List ClientRequest} (hr : s.reader = .listens)
      (hc : s.coming = r :: coming) (hin : 0 < s.incoming) :
      Reads s { s with coming := coming, reader := .locksHeader r }
  | locksHeader {r : ClientRequest} (hr : s.reader = .locksHeader r)
      (hfree : s.replier.holdsResponses = false) :
      Reads s { s with reader := .header r requestSize }
  | write {r : ClientRequest} (hr : s.reader = .header r 0) (hcmd : r.cmd = .write) :
      Reads s { s with reader := .locksPayload r }
  | read {r : ClientRequest} (hr : s.reader = .header r 0) (hcmd : r.cmd = .read) :
      Reads s { s with reader := .locksResponses r }
  | other {r : ClientRequest} (hr : s.reader = .header r 0) (hw : r.cmd ≠ .write)
      (hread : r.cmd ≠ .read) : Reads s { s with reader := .listens }
  | locksPayload {r : ClientRequest} (hr : s.reader = .locksPayload r)
      (hfree : s.replier.holdsResponses = false) :
      Reads s { s with reader := .payload r r.data.length }
  | paid {r : ClientRequest} (hr : s.reader = .payload r 0) :
      Reads s { s with reader := .locksResponses r }
  | locksResponses {r : ClientRequest} (hr : s.reader = .locksResponses r)
      (hfree : s.replier.holdsResponses = false) : Reads s { s with reader := .stores r }
  | stores {r : ClientRequest} (hr : s.reader = .stores r) :
      Reads s { s with reader := .locksRequests r }
  | locksRequests {r : ClientRequest} (hr : s.reader = .locksRequests r)
      (hfree : s.replier.holdsRequests = false) : Reads s { s with reader := .announces r }
  | announces {r : ClientRequest} (hr : s.reader = .announces r) :
      Reads s { s with reader := .listens, working := s.working ++ [r] }

theorem readerNext_cases (h : s.readerNext = some s') : Reads s s' := by
  unfold State.readerNext at h
  split at h
  · rename_i hr
    split at h
    · cases h
    · rename_i hc
      obtain ⟨hin, h⟩ := Option.ite_none_right_eq_some.mp h
      cases h
      exact .wakes hr hc hin
  · rename_i hr
    obtain ⟨hfree, h⟩ := Option.ite_none_left_eq_some.mp h
    cases h
    exact .locksHeader hr (by simpa using hfree)
  · cases h
  · cases h
  · rename_i r hr
    split_ifs at h with hw hread
    · cases h
      exact .write hr hw
    · cases h
      exact .read hr hread
    · cases h
      exact .other hr hw hread
  · rename_i hr
    obtain ⟨hfree, h⟩ := Option.ite_none_left_eq_some.mp h
    cases h
    exact .locksPayload hr (by simpa using hfree)
  · rename_i hr
    cases h
    exact .paid hr
  · rename_i hr
    obtain ⟨hfree, h⟩ := Option.ite_none_left_eq_some.mp h
    cases h
    exact .locksResponses hr (by simpa using hfree)
  · rename_i hr
    cases h
    exact .stores hr
  · rename_i hr
    obtain ⟨hfree, h⟩ := Option.ite_none_left_eq_some.mp h
    cases h
    exact .locksRequests hr (by simpa using hfree)
  · rename_i hr
    cases h
    exact .announces hr

/-- Everything a step can do. -/
inductive Steps (roomIn roomOut : ℕ) (s : State) : Event → State → Prop
  | issue (r : ClientRequest) : Steps roomIn roomOut s (.issue r) { s with
      unwritten := s.unwritten + r.wire.length
      coming := s.coming ++ [r]
      issued := s.issued + one r.isIo }
  | write {k : ℕ} (hk : 0 < k) (hle : k ≤ s.unwritten) (hroom : s.incoming + k ≤ roomIn) :
      Steps roomIn roomOut s (.write k)
        { s with unwritten := s.unwritten - k, incoming := s.incoming + k }
  | read {k : ℕ} (hk : 0 < k) (hle : k ≤ s.outgoing) :
      Steps roomIn roomOut s (.read k) { s with outgoing := s.outgoing - k }
  | header {k left : ℕ} {r : ClientRequest} (hr : s.reader = .header r left) (hk : 0 < k)
      (hin : k ≤ s.incoming) (hle : k ≤ left) : Steps roomIn roomOut s (.recv k)
        { s with incoming := s.incoming - k, reader := .header r (left - k) }
  | payload {k left : ℕ} {r : ClientRequest} (hr : s.reader = .payload r left) (hk : 0 < k)
      (hin : k ≤ s.incoming) (hle : k ≤ left) : Steps roomIn roomOut s (.recv k)
        { s with incoming := s.incoming - k, reader := .payload r (left - k) }
  | send {k left : ℕ} (hr : s.replier = .sends left) (hk : 0 < k) (hle : k ≤ left)
      (hroom : s.outgoing + k ≤ roomOut) : Steps roomIn roomOut s (.send k)
        { s with outgoing := s.outgoing + k, replier := .sends (left - k) }
  | reader {s' : State} (hr : Reads s s') : Steps roomIn roomOut s .reader s'
  | locksRequests {size : ℕ} (hr : s.replier = .locksRequests size)
      (hfree : s.reader.holdsRequests = false) :
      Steps roomIn roomOut s .replier { s with replier := .locksResponses size }
  | locksResponses {size : ℕ} (hr : s.replier = .locksResponses size)
      (hfree : s.reader.holdsResponses = false) :
      Steps roomIn roomOut s .replier { s with replier := .sends size }
  | sent (hr : s.replier = .sends 0) :
      Steps roomIn roomOut s .replier { s with replier := .idle, answered := s.answered + 1 }
  | complete {i : ℕ} {ok : Bool} {r : ClientRequest} (hr : s.replier = .idle)
      (hw : s.working[i]? = some r) : Steps roomIn roomOut s (.complete i ok)
        { s with working := s.working.eraseIdx i, replier := .locksRequests (replyBytes r ok) }

theorem step_cases (h : step roomIn roomOut s e = some s') : Steps roomIn roomOut s e s' := by
  cases e with
  | issue r =>
    cases h
    exact .issue r
  | write k =>
    obtain ⟨⟨hk, hle, hroom⟩, h⟩ := Option.ite_none_right_eq_some.mp h
    cases h
    exact .write hk hle hroom
  | read k =>
    obtain ⟨⟨hk, hle⟩, h⟩ := Option.ite_none_right_eq_some.mp h
    cases h
    exact .read hk hle
  | recv k =>
    obtain ⟨⟨hk, hin⟩, h⟩ := Option.ite_none_right_eq_some.mp h
    obtain ⟨reader, hrecv, rfl⟩ := Option.map_eq_some_iff.mp h
    unfold Reader.recv at hrecv
    split at hrecv
    · rename_i hr
      obtain ⟨hle, hrecv⟩ := Option.ite_none_right_eq_some.mp hrecv
      cases hrecv
      exact .header hr hk hin hle
    · rename_i hr
      obtain ⟨hle, hrecv⟩ := Option.ite_none_right_eq_some.mp hrecv
      cases hrecv
      exact .payload hr hk hin hle
    · cases hrecv
  | send k =>
    dsimp only [step] at h
    split at h
    · rename_i hr
      obtain ⟨⟨hk, hle, hroom⟩, h⟩ := Option.ite_none_right_eq_some.mp h
      cases h
      exact .send hr hk hle hroom
    · cases h
  | reader => exact .reader (readerNext_cases h)
  | replier =>
    change s.replierNext = some s' at h
    unfold State.replierNext at h
    split at h
    · cases h
    · cases h
    · rename_i hr
      obtain ⟨hfree, h⟩ := Option.ite_none_left_eq_some.mp h
      cases h
      exact .locksRequests hr (by simpa using hfree)
    · rename_i hr
      obtain ⟨hfree, h⟩ := Option.ite_none_left_eq_some.mp h
      cases h
      exact .locksResponses hr (by simpa using hfree)
    · rename_i hr
      cases h
      exact .sent hr
  | complete i ok =>
    obtain ⟨hr, h⟩ := Option.ite_none_right_eq_some.mp h
    obtain ⟨r, hw, rfl⟩ := Option.map_eq_some_iff.mp h
    exact .complete hr hw

/-! ### What is still to come -/

/-- The bytes of its request that the thread has still to take. -/
def Reader.left : Reader → ℕ
  | .locksHeader r => r.wire.length
  | .header r left => left + r.data.length
  | .locksPayload r => r.data.length
  | .payload _ left => left
  | _ => 0

/-- Whether the thread has a read or a write in hand. -/
def Reader.busy : Reader → ℕ
  | .listens => 0
  | .locksHeader r | .header r _ => one r.isIo
  | _ => 1

def Replier.busy : Replier → ℕ
  | .idle => 0
  | _ => 1

/-- No byte and no request is lost between the two ends. -/
structure Balanced (s : State) : Prop where
  bytes : s.unwritten + s.incoming = s.reader.left + total (fun r => r.wire.length) s.coming
  requests : s.issued = s.coming.countP ClientRequest.isIo + s.reader.busy + s.working.length +
    s.replier.busy + s.answered

theorem wire_length (r : ClientRequest) : r.wire.length = requestSize + r.data.length := by
  rw [ClientRequest.wire, List.length_append, ClientRequest.header_length]

theorem data_eq_nil {r : ClientRequest} (h : r.cmd ≠ .write) : r.data.length = 0 := by
  rw [r.data_length, if_neg h]

theorem init_balanced : Balanced State.init := ⟨rfl, rfl⟩

theorem isIo_of_ne {r : ClientRequest} (hw : r.cmd ≠ .write) (hread : r.cmd ≠ .read) :
    r.isIo = false := by
  simp [ClientRequest.isIo, hw, hread]

/-- The thread goes on with the same bytes before it and the same request in hand. -/
theorem Balanced.of_reader (h : Balanced s) {reader reader' : Reader} (hr : s.reader = reader)
    (hleft : reader'.left = reader.left) (hbusy : reader'.busy = reader.busy) :
    Balanced { s with reader := reader' } := by
  subst hr
  exact ⟨by rw [hleft]; exact h.bytes, by rw [hbusy]; exact h.requests⟩

theorem Balanced.reads (h : Balanced s) (hst : Reads s s') : Balanced s' := by
  cases hst with
  | wakes hr hc hin =>
    obtain ⟨hbytes, hrequests⟩ := h
    simp only [hr, hc, Reader.left, Reader.busy, total, List.countP_cons] at hbytes hrequests
    constructor
    · simp only [Reader.left]
      omega
    · simp only [Reader.busy, one]
      omega
  | @locksHeader r hr hfree => exact h.of_reader hr (wire_length r).symm rfl
  | write hr hcmd =>
    exact h.of_reader hr (by simp [Reader.left])
      (by simp [Reader.busy, ClientRequest.isIo, hcmd])
  | read hr hcmd =>
    have hnil := data_eq_nil (by rw [hcmd]; decide)
    exact h.of_reader hr (by simp [Reader.left, hnil])
      (by simp [Reader.busy, ClientRequest.isIo, hcmd])
  | other hr hw hread =>
    exact h.of_reader hr (by simp [Reader.left, data_eq_nil hw])
      (by simp [Reader.busy, isIo_of_ne hw hread])
  | locksPayload hr hfree => exact h.of_reader hr rfl rfl
  | paid hr => exact h.of_reader hr rfl rfl
  | locksResponses hr hfree => exact h.of_reader hr rfl rfl
  | stores hr => exact h.of_reader hr rfl rfl
  | locksRequests hr hfree => exact h.of_reader hr rfl rfl
  | announces hr =>
    obtain ⟨hbytes, hrequests⟩ := h
    simp only [hr, Reader.left, Reader.busy] at hbytes hrequests
    refine ⟨hbytes, ?_⟩
    simp only [Reader.busy, List.length_append, List.length_singleton]
    omega

theorem Balanced.of_step (h : Balanced s) (hst : Steps roomIn roomOut s e s') : Balanced s' := by
  obtain ⟨hbytes, hrequests⟩ := id h
  cases hst with
  | issue r =>
    constructor
    · simp only [total_concat]
      omega
    · simp only [List.countP_append, List.countP_singleton, one]
      omega
  | write hk hle hroom =>
    refine ⟨?_, hrequests⟩
    dsimp only
    omega
  | read hk hle => exact ⟨hbytes, hrequests⟩
  | header hr hk hin hle =>
    simp only [hr, Reader.left, Reader.busy] at hbytes hrequests
    refine ⟨?_, hrequests⟩
    simp only [Reader.left]
    omega
  | payload hr hk hin hle =>
    simp only [hr, Reader.left, Reader.busy] at hbytes hrequests
    refine ⟨?_, hrequests⟩
    simp only [Reader.left]
    omega
  | send hr hk hle hroom =>
    rw [hr] at hrequests
    exact ⟨hbytes, hrequests⟩
  | reader hr => exact h.reads hr
  | locksRequests hr hfree =>
    rw [hr] at hrequests
    exact ⟨hbytes, hrequests⟩
  | locksResponses hr hfree =>
    rw [hr] at hrequests
    exact ⟨hbytes, hrequests⟩
  | sent hr =>
    rw [hr] at hrequests
    refine ⟨hbytes, ?_⟩
    simp only [Replier.busy] at hrequests ⊢
    omega
  | complete hr hw =>
    have hlt := (List.getElem?_eq_some_iff.mp hw).1
    rw [hr] at hrequests
    refine ⟨hbytes, ?_⟩
    simp only [Replier.busy, List.length_eraseIdx, if_pos hlt] at hrequests ⊢
    omega

/-! ### The end -/

/-- Bounds the steps for a request that is at work. -/
def work (r : ClientRequest) : ℕ := 2 * (replySize + r.length.toNat) + 4

def Reader.rank : Reader → ℕ
  | .listens => 0
  | .announces r => work r + 1
  | .locksRequests r => work r + 2
  | .stores r => work r + 3
  | .locksResponses r => work r + 4
  | .payload r _ => work r + 5
  | .locksPayload r => work r + 6
  | .header r _ => work r + 7
  | .locksHeader r => work r + 8

def Replier.rank : Replier → ℕ
  | .idle => 0
  | .sends left => 2 * left + 1
  | .locksResponses size => 2 * size + 2
  | .locksRequests size => 2 * size + 3

/-- Bounds the steps that are left if the client issues nothing more. -/
def State.rank (s : State) : ℕ :=
  2 * s.unwritten + s.incoming + s.outgoing + total (fun r => work r + 9) s.coming +
    s.reader.rank + total work s.working + s.replier.rank

/-- A new request of the client. -/
def Event.isIssue : Event → Bool
  | .issue _ => true
  | _ => false

/-- Neither a new request of the client nor an answer of the minions. -/
def Event.Own : Event → Prop
  | .issue _ | .complete _ _ => False
  | _ => True

theorem replyBytes_le (r : ClientRequest) (ok : Bool) :
    replyBytes r ok ≤ replySize + r.length.toNat := by
  unfold replyBytes ClientRequest.dataSize
  split_ifs <;> omega

theorem Reads.rank_lt (hst : Reads s s') : s'.rank < s.rank := by
  cases hst with
  | wakes hr hc hin =>
    simp only [State.rank, hr, hc, Reader.rank, total]
    omega
  | announces hr =>
    simp only [State.rank, hr, Reader.rank, total_concat]
    omega
  | other hr hw hread =>
    simp only [State.rank, hr, Reader.rank]
    omega
  | locksHeader hr _ | write hr _ | read hr _ | locksPayload hr _ | paid hr | locksResponses hr _
  | stores hr | locksRequests hr _ =>
    simp only [State.rank, hr, Reader.rank]
    omega

theorem Steps.rank_lt (hst : Steps roomIn roomOut s e s') (he : e.isIssue = false) :
    s'.rank < s.rank := by
  cases hst with
  | issue r => cases he
  | write hk hle hroom =>
    simp only [State.rank]
    omega
  | read hk hle =>
    simp only [State.rank]
    omega
  | header hr hk hin hle =>
    simp only [State.rank, hr, Reader.rank]
    omega
  | payload hr hk hin hle =>
    simp only [State.rank, hr, Reader.rank]
    omega
  | send hr hk hle hroom =>
    simp only [State.rank, hr, Replier.rank]
    omega
  | reader hr => exact hr.rank_lt
  | locksRequests hr hfree =>
    simp only [State.rank, hr, Replier.rank]
    omega
  | locksResponses hr hfree =>
    simp only [State.rank, hr, Replier.rank]
    omega
  | sent hr =>
    simp only [State.rank, hr, Replier.rank]
    omega
  | @complete i ok r hr hw =>
    have hle := replyBytes_le r ok
    have hwork := total_eraseIdx_add (f := work) hw
    simp only [State.rank, hr, Replier.rank, work] at hwork ⊢
    omega

theorem run_rank {own : List Event} (hown : ∀ e ∈ own, e.isIssue = false)
    (h : run (step roomIn roomOut) (fun _ _ => True) own s = some s') :
    s'.rank + own.length ≤ s.rank := by
  refine (Lib.run_rank (P := fun _ => True) State.rank (fun s e s' _ he hst _ => ?_) h hown
    trivial).2
  exact ⟨trivial, (step_cases hst).rank_lt he⟩

/-- While bytes of a request are missing, they can be taken or written. -/
theorem bytes_move {reader : Reader} (hin : 0 < roomIn) (hmore : 0 < s.unwritten + s.incoming)
    (hrecv : s.reader.recv 1 = some reader) :
    ∃ e : Event, e.Own ∧ (step roomIn roomOut s e).isSome := by
  by_cases hincoming : 0 < s.incoming
  · refine ⟨.recv 1, trivial, ?_⟩
    simp only [step, hrecv]
    rw [if_pos ⟨Nat.one_pos, hincoming⟩]
    rfl
  · refine ⟨.write 1, trivial, ?_⟩
    simp only [step]
    rw [if_pos ⟨Nat.one_pos, by omega, by omega⟩]
    rfl

/-- A thread that has `NBDProxy::m_mtx` to take bytes, or to store a reply, can go on. -/
theorem Balanced.holder_moves (h : Balanced s) (hin : 0 < roomIn)
    (hr : s.reader.holdsResponses = true) :
    ∃ e : Event, e.Own ∧ (step roomIn roomOut s e).isSome := by
  have hbytes := h.bytes
  cases hreader : s.reader with
  | header r left =>
    cases left with
    | zero =>
      refine ⟨.reader, trivial, ?_⟩
      simp only [step, State.readerNext, hreader]
      split_ifs <;> rfl
    | succ left =>
      rw [hreader, Reader.left] at hbytes
      exact bytes_move hin (by omega) (by rw [hreader, Reader.recv, if_pos (by omega)])
  | payload r left =>
    cases left with
    | zero => exact ⟨.reader, trivial, by simp [step, State.readerNext, hreader]⟩
    | succ left =>
      rw [hreader, Reader.left] at hbytes
      exact bytes_move hin (by omega) (by rw [hreader, Reader.recv, if_pos (by omega)])
  | stores r => exact ⟨.reader, trivial, by simp [step, State.readerNext, hreader]⟩
  | listens | locksHeader | locksPayload | locksResponses | locksRequests | announces =>
    simp [hreader, Reader.holdsResponses] at hr

/-- A reply that is under way goes on, or the thread whose mutex it needs does. -/
theorem Balanced.replier_moves (h : Balanced s) (hin : 0 < roomIn) (hout : 0 < roomOut)
    (hr : s.replier ≠ .idle) : ∃ e : Event, e.Own ∧ (step roomIn roomOut s e).isSome := by
  cases hreplier : s.replier with
  | idle => exact absurd hreplier hr
  | locksRequests size =>
    cases hfree : s.reader.holdsRequests with
    | false => exact ⟨.replier, trivial, by simp [step, State.replierNext, hreplier, hfree]⟩
    | true =>
      -- the reactor thread is in `OnNewTask`, where it waits for nothing
      refine ⟨.reader, trivial, ?_⟩
      cases hreader : s.reader with
      | announces r => simp [step, State.readerNext, hreader]
      | _ => simp [hreader, Reader.holdsRequests] at hfree
  | locksResponses size =>
    cases hfree : s.reader.holdsResponses with
    | false => exact ⟨.replier, trivial, by simp [step, State.replierNext, hreplier, hfree]⟩
    | true => exact h.holder_moves hin hfree
  | sends left =>
    cases left with
    | zero => exact ⟨.replier, trivial, by simp [step, State.replierNext, hreplier]⟩
    | succ left =>
      by_cases hfull : s.outgoing + 1 ≤ roomOut
      · refine ⟨.send 1, trivial, ?_⟩
        simp only [step, hreplier]
        rw [if_pos ⟨Nat.one_pos, by omega, hfull⟩]
        rfl
      · -- the buffer is full: the client reads
        refine ⟨.read 1, trivial, ?_⟩
        simp only [step]
        rw [if_pos ⟨Nat.one_pos, by omega⟩]
        rfl

/-- With no reply under way, the reactor thread goes on, or the client writes, until nothing is
left of the requests. -/
theorem Balanced.reader_moves (h : Balanced s) (hin : 0 < roomIn) (hr : s.replier = .idle)
    (hmore : s.reader ≠ .listens ∨ 0 < s.unwritten + s.incoming) :
    ∃ e : Event, e.Own ∧ (step roomIn roomOut s e).isSome := by
  have hfree : s.replier.holdsResponses = false := by rw [hr]; rfl
  have hfree' : s.replier.holdsRequests = false := by rw [hr]; rfl
  have hnext : s.readerNext.isSome → ∃ e : Event, e.Own ∧ (step roomIn roomOut s e).isSome :=
    fun hsome => ⟨.reader, trivial, hsome⟩
  cases hreader : s.reader with
  | header r left => exact h.holder_moves hin (by rw [hreader]; rfl)
  | payload r left => exact h.holder_moves hin (by rw [hreader]; rfl)
  | stores r => exact h.holder_moves hin (by rw [hreader]; rfl)
  | locksHeader r => exact hnext (by simp [State.readerNext, hreader, hfree])
  | locksPayload r => exact hnext (by simp [State.readerNext, hreader, hfree])
  | locksResponses r => exact hnext (by simp [State.readerNext, hreader, hfree])
  | locksRequests r => exact hnext (by simp [State.readerNext, hreader, hfree'])
  | announces r => exact hnext (by simp [State.readerNext, hreader])
  | listens =>
    have hpos := hmore.resolve_left fun hne => hne hreader
    have hbytes := h.bytes
    by_cases hincoming : 0 < s.incoming
    · apply hnext
      cases hcoming : s.coming with
      | nil =>
        simp only [hreader, hcoming, Reader.left, total] at hbytes
        omega
      | cons r coming => simp [State.readerNext, hreader, hcoming, hincoming]
    · refine ⟨.write 1, trivial, ?_⟩
      simp only [step]
      rw [if_pos ⟨Nat.one_pos, by omega, by omega⟩]
      rfl

theorem coming_eq_nil {coming : List ClientRequest}
    (h : total (fun r => r.wire.length) coming = 0) : coming = [] := by
  cases coming with
  | nil => rfl
  | cons r coming =>
    simp only [total, wire_length, requestSize] at h
    omega

/-- The socket never jams, however small its buffers are and in whatever portions the bytes go:
without new requests the steps are bounded, and when nothing can happen but a new request or
an answer of the minions, all that the client has issued has been taken, all replies have been
read, and each read and write is at work or has been answered. -/
theorem socket_never_jams (hin : 0 < roomIn) (hout : 0 < roomOut) (es : List Event) (s : State)
    (h : run (step roomIn roomOut) (fun _ _ => True) es State.init = some s) :
    (∀ own s', (∀ e ∈ own, Event.isIssue e = false) →
      run (step roomIn roomOut) (fun _ _ => True) own s = some s' → own.length ≤ s.rank) ∧
      ((∀ e : Event, e.Own → step roomIn roomOut s e = none) →
        s.unwritten = 0 ∧ s.incoming = 0 ∧ s.outgoing = 0 ∧
          s.issued = s.working.length + s.answered) := by
  have hs : Balanced s :=
    run_invariant (fun _ _ _ _ hst hi => hi.of_step (step_cases hst)) h init_balanced
  refine ⟨fun own s' hown hrun => ?_, fun hnone => ?_⟩
  · have := run_rank hown hrun
    omega
  have hstuck : ¬ ∃ e : Event, e.Own ∧ (step roomIn roomOut s e).isSome := by
    rintro ⟨e, he, hsome⟩
    rw [hnone e he] at hsome
    cases hsome
  have hidle : s.replier = .idle := by
    by_contra hr
    exact hstuck (hs.replier_moves hin hout hr)
  have hread : s.reader = .listens := by
    by_contra hr
    exact hstuck (hs.reader_moves hin hidle (.inl hr))
  have hbytes : s.unwritten + s.incoming = 0 := by
    by_contra hpos
    exact hstuck (hs.reader_moves hin hidle (.inr (by omega)))
  have hout : s.outgoing = 0 := by
    by_contra hpos
    refine hstuck ⟨.read 1, trivial, ?_⟩
    simp only [step]
    rw [if_pos ⟨Nat.one_pos, by omega⟩]
    rfl
  have hcoming : s.coming = [] := by
    have hleft : s.reader.left = 0 := by
      rw [hread]
      rfl
    have hsum := hs.bytes
    exact coming_eq_nil (by omega)
  have hrequests := hs.requests
  rw [hread, hidle, hcoming] at hrequests
  refine ⟨by omega, by omega, hout, ?_⟩
  simpa [Reader.busy, Replier.busy] using hrequests

/-- A read of one byte. -/
def oneByte : ClientRequest := .smallRead 2 0 1

/-- The request goes through in two parts, its reply in one. -/
def oneByteRead : List Event :=
  [.issue oneByte, .write 20, .reader, .reader, .recv 20, .write 8, .recv 8, .reader, .reader,
    .reader, .reader, .reader, .complete 0 true, .replier, .replier, .send 17, .replier, .read 17]

theorem socket_never_jams_oneByteRead :
    ∃ s, run (step 20 20) (fun _ _ => True) oneByteRead State.init = some s ∧ s.outgoing = 0 ∧
      s.issued = s.working.length + s.answered := by
  have hrun : run (step 20 20) (fun _ _ => True) oneByteRead State.init =
      some ⟨0, 0, 0, [], [], .listens, .idle, 1, 1⟩ := rfl
  obtain ⟨-, hquiet⟩ := socket_never_jams (by decide : 0 < 20) (by decide : 0 < 20) oneByteRead _
    hrun
  obtain ⟨-, -, hout, hissued⟩ := hquiet fun e he => by
    cases e with
    | issue r => exact absurd he id
    | complete i ok => exact absurd he id
    | write k => exact if_neg fun hk => Nat.not_le.mpr hk.1 hk.2.1
    | read k => exact if_neg fun hk => Nat.not_le.mpr hk.1 hk.2
    | recv k => exact if_neg fun hk => Nat.not_le.mpr hk.1 hk.2
    | send k => rfl
    | reader => rfl
    | replier => rfl
  exact ⟨_, hrun, hout, hissued⟩

/-- A second request fills the buffer, the reply to the first one the other, and the reactor
thread waits for the mutex of the reply: all wait for the client to read. -/
def bothFull : List Event :=
  [.issue oneByte, .write 20, .reader, .reader, .recv 20, .write 8, .recv 8, .reader, .reader,
    .reader, .reader, .reader, .complete 0 true, .replier, .replier, .send 16, .issue oneByte,
    .write 20, .reader]

example : (run (step 20 16) (fun _ _ => True) bothFull State.init).map
    (fun s => [Event.write 1, .recv 1, .send 1, .reader, .replier, .read 1].map fun e =>
      (step 20 16 s e).isSome) = some [false, false, false, false, false, true] := by decide

end IoTDrive.Nbd.Blocking
