import IoTDrive.Master.State

/-! What a step of the master can do. A step of a received request takes one branch of
`advance`, an answer is dropped or handed to the callback under its UID, and a new
request is added at the end of the list. Later modules argue from these cases and do
not unfold the transition functions. -/

namespace IoTDrive.Master

open Lib Message Stripe MinionProxy

namespace MasterState
variable {M : MinionManager} {s s' : MasterState} {j : ℕ} {job job' : Job}

theorem jobs_setJob (hj : s.jobs[j]? = some job) (job' : Job) (k : ℕ) :
    (s.setJob j job').jobs[k]? = if k = j then some job' else s.jobs[k]? := by
  have hlt := (List.getElem?_eq_some_iff.mp hj).1
  rw [setJob, List.getElem?_set]
  split_ifs with h1 h2 <;> first | rfl | omega

/-- The transitions of a received request, by the branch of `advance` that makes them:
whether the socket would send, the request afterwards, the master afterwards, and the
datagram sent. -/
inductive Advances (M : MinionManager) (s : MasterState) (j : ℕ) (job : Job) :
    Bool → Job → MasterState → Option Packet → Prop
  | onNewTask (ok : Bool) (hp : job.phase = .received) :
    Advances M s j job ok { job with phase := .queued }
      ((s.onNewTask job.uid).setJob j { job with phase := .queued }) none
  | reject (ok : Bool) (hp : job.phase = .queued) (e : String)
    (ht : addTask M job.req.op job.uid job.req.offset.toNat job.req.length.toNat job.req.data =
      .error e) :
    Advances M s j job ok { job with phase := .aborted }
      (s.setJob j { job with phase := .aborted }) none
  | create (ok : Bool) (hp : job.phase = .queued) (t : Ticket) (ops : List SendOp)
    (ht : addTask M job.req.op job.uid job.req.offset.toNat job.req.length.toNat job.req.data =
      .ok (t, ops)) :
    Advances M s j job ok { job with phase := .created, ticket := some t, ops := ops }
      { s.setJob j { job with phase := .created, ticket := some t, ops := ops } with
        tickets := Function.update s.tickets job.uid (some j) }
      none
  | announce (ok : Bool) (hp : job.phase = .created) :
    Advances M s j job ok
      { job with
        phase := .sending
        ticket := job.ticket.map Ticket.registerToResultDispatcher }
      (s.setJob j { job with
        phase := .sending
        ticket := job.ticket.map Ticket.registerToResultDispatcher }) none
  | send (hp : job.phase = .sending) (o : SendOp) (d : List UInt8) (beyond : ℕ → UInt8)
    (ho : job.ops[job.sent]? = some o) (hm : o.minion < M.numMinions)
    (hd : o.message.datagram beyond = some d) :
    Advances M s j job true { job with sent := job.sent + 1 }
      ((s.withProxy o.minion ((s.proxies o.minion).register job.uid (o.onDone j))).setJob j
        { job with sent := job.sent + 1 })
      (some ⟨o.minion, some (j, job.sent), d⟩)
  | sendFails (hp : job.phase = .sending) (o : SendOp) (ho : job.ops[job.sent]? = some o) :
    Advances M s j job false { job with phase := .aborted }
      ((s.withProxy o.minion ((s.proxies o.minion).register job.uid (o.onDone j))).setJob j
        { job with phase := .aborted })
      none

theorem advance_cases {sendOk : Bool} {beyond : ℕ → UInt8} {pk : Option Packet}
    (h : s.advance M j sendOk beyond = some (s', pk)) :
    ∃ job job', s.jobs[j]? = some job ∧ Advances M s j job sendOk job' s' pk := by
  simp only [advance, Option.bind_eq_bind, Option.bind_eq_some_iff] at h
  obtain ⟨job, hj, h⟩ := h
  cases hp : job.phase with
  | received =>
    simp only [hp, Option.pure_def, Option.some.injEq, Prod.mk.injEq] at h
    obtain ⟨rfl, rfl⟩ := h
    exact ⟨job, _, hj, .onNewTask _ hp⟩
  | queued =>
    simp only [hp] at h
    split at h
    · next e he =>
      simp only [Option.pure_def, Option.some.injEq, Prod.mk.injEq] at h
      obtain ⟨rfl, rfl⟩ := h
      exact ⟨job, _, hj, .reject _ hp e he⟩
    · next t ops ht =>
      simp only [Option.pure_def, Option.some.injEq, Prod.mk.injEq] at h
      obtain ⟨rfl, rfl⟩ := h
      exact ⟨job, _, hj, .create _ hp t ops ht⟩
  | created =>
    simp only [hp, Option.pure_def, Option.some.injEq, Prod.mk.injEq] at h
    obtain ⟨rfl, rfl⟩ := h
    exact ⟨job, _, hj, .announce _ hp⟩
  | sending =>
    simp only [hp, Option.bind_eq_some_iff] at h
    obtain ⟨o, ho, h⟩ := h
    by_cases hm : M.numMinions ≤ o.minion
    · simp [hm] at h
    simp only [hm, if_false, Option.bind_eq_some_iff] at h
    obtain ⟨d, hd, h⟩ := h
    cases sendOk with
    | true =>
      simp only [if_true, Option.pure_def, Option.some.injEq, Prod.mk.injEq] at h
      obtain ⟨rfl, rfl⟩ := h
      refine ⟨job, { job with sent := job.sent + 1 }, hj, ?_⟩
      simpa only [hp] using
        Advances.send (s := s) (j := j) hp o d beyond ho (Nat.lt_of_not_le hm) hd
    | false =>
      simp only [Bool.false_eq_true, if_false, Option.pure_def, Option.some.injEq,
        Prod.mk.injEq] at h
      obtain ⟨rfl, rfl⟩ := h
      exact ⟨job, _, hj, .sendFails hp o ho⟩
  | aborted => simp [hp] at h

/-- What a step of a request leaves of it. -/
theorem Advances.frame {ok : Bool} {pk : Option Packet} (h : Advances M s j job ok job' s' pk) :
    s'.jobs = s.jobs.set j job' ∧ job'.uid = job.uid ∧ job'.req = job.req ∧
      job.sent ≤ job'.sent := by
  cases h <;> exact ⟨rfl, rfl, rfl, by simp⟩

/-- An answer is dropped, or it is handed to the callback registered under its UID. -/
theorem wakeUp_cases {m : ℕ} {stack : ℕ → UInt8} {d : List UInt8}
    (h : s.wakeUp m stack d = some s') :
    s' = s ∨ ∃ msg cb, receive masterTypes stack d = .message msg ∧
      (s.proxies m).map msg.getUID = some cb ∧
      s' = (s.withProxy m ⟨Function.update (s.proxies m).map msg.getUID none⟩).onMirrorResponse
        cb msg := by
  simp only [wakeUp, onMinionFDWakeUp] at h
  cases hr : receive masterTypes stack d with
  | short => simp only [hr, Option.some.injEq] at h; exact .inl h.symm
  | mismatch => simp only [hr, Option.some.injEq] at h; exact .inl h.symm
  | unknownType => simp [hr] at h
  | fault => simp [hr] at h
  | message msg =>
    simp only [hr] at h
    cases hm : (s.proxies m).map msg.getUID with
    | none =>
      simp only [dispatch_of_none hm, Option.some.injEq] at h
      exact .inl h.symm
    | some cb =>
      simp only [dispatch_of_some hm, Option.some.injEq] at h
      exact .inr ⟨msg, cb, rfl, hm, h.symm⟩

/-! ### The history of requests -/

/-- The requests received so far with their UIDs, oldest first. -/
def history (s : MasterState) : List (UID × Request) := s.jobs.map fun job => (job.uid, job.req)

/-- The request that an action brings. -/
def Action.newRequest : Action → List (UID × Request)
  | .getTaskArgs req uid => [(uid, req)]
  | _ => []

theorem history_set (hj : s.jobs[j]? = some job) (hu : job'.uid = job.uid)
    (hr : job'.req = job.req) : (s.jobs.set j job').map (fun job => (job.uid, job.req)) =
      s.history := by
  obtain ⟨hlt, rfl⟩ := List.getElem?_eq_some_iff.mp hj
  rw [List.map_set, hu, hr, history]
  refine List.ext_getElem (by simp) fun n h1 h2 => ?_
  rw [List.getElem_set]
  split_ifs with hn
  · subst hn
    simp
  · rfl

/-- Requests are added at the end and never change. -/
theorem step_history {a : Action} (h : step M s a = some s') :
    s'.history = s.history ++ a.newRequest := by
  cases a with
  | getTaskArgs req uid =>
    obtain rfl := Option.some.inj h
    simp [history, getTaskArgs, Action.newRequest]
  | advance j sendOk beyond =>
    obtain ⟨⟨s₁, pk⟩, hadv, rfl⟩ := Option.map_eq_some_iff.mp h
    obtain ⟨job, job', hj, hcases⟩ := advance_cases hadv
    obtain ⟨hjobs, hu, hr, -⟩ := hcases.frame
    refine Eq.trans ?_ (List.append_nil _).symm
    rw [history, hjobs, history_set hj hu hr]
  | wakeUp m stack d =>
    refine Eq.trans ?_ (List.append_nil _).symm
    rcases wakeUp_cases h with rfl | ⟨msg, cb, -, -, rfl⟩
    · rfl
    · cases hj : s.jobs[cb.ticket]? with
      | none => simp [onMirrorResponse, withProxy, hj, history]
      | some job =>
        cases ht : job.ticket with
        | none => simp [onMirrorResponse, withProxy, hj, ht, history]
        | some t =>
          rw [history, (onMirrorResponse_frame (s := s.withProxy m _) cb msg hj ht).1]
          exact history_set hj rfl rfl

end MasterState

end IoTDrive.Master
