import IoTDrive.Master.Agreement
import IoTDrive.System.Model

/-! Datagrams and the sends they belong to. A request is admissible if it lies on the
drive, is not empty and its answers fit the receive buffer. A datagram in flight is
tracked if it belongs to one performed send of one request and the callback of this
send waits for it at its proxy. Here is what tracked datagrams are, that steps of the
master keep them, and what an execution and an answer do to the drive. -/

namespace IoTDrive.System

open Lib Message Minion Stripe Master

/-- A request on the drive whose answers the master can receive. -/
def Admissible (M : MinionManager) (req : Request) : Prop :=
  M.InRange req.offset.toNat req.length.toNat ∧ 0 < req.length.toNat ∧
    (req.op = .read → ∀ s ∈ M.segments req.offset.toNat req.length.toNat,
      s.length ≤ maxReadLength)

instance (M : MinionManager) (req : Request) : Decidable (Admissible M req) :=
  inferInstanceAs (Decidable (_ ∧ _ ∧ (_ → _)))

/-- If the next step of the request is a send, no callback waits where it registers. -/
def FreeSlot (s : MasterState) (j : ℕ) : Prop :=
  ∀ job ∈ s.jobs[j]?, job.phase = .sending →
    ∀ o ∈ job.ops[job.sent]?, (s.proxies o.minion).map job.uid = none

instance (s : MasterState) (j : ℕ) : Decidable (FreeSlot s j) :=
  inferInstanceAs (Decidable (∀ job ∈ s.jobs[j]?, job.phase = .sending →
    ∀ o ∈ job.ops[job.sent]?, (s.proxies o.minion).map job.uid = none))

/-- The sends of a request and the segments of its ticket are those of its split. -/
structure Planned (M : MinionManager) (job : Job) : Prop where
  noTicket : job.ticket = none → job.ops = [] ∧ job.sent = 0
  ops_eq : job.ticket ≠ none → job.ops = fanOut job.req.op job.uid job.req.data (job.segments M)
  shape : ∀ t, job.ticket = some t →
    t.segments.map (fun g => (g.length, g.bufferOffset)) =
      (job.segments M).map fun g => (g.length, g.bufferOffset)
  sent_le : job.sent ≤ job.ops.length

/-- A datagram in flight: the send it belongs to, and the callback that waits for it. -/
structure Tracked (s : MasterState) (p : Packet) (j i : ℕ) (job : Job) (o : SendOp) : Prop where
  origin : p.origin = some (j, i)
  job_eq : s.jobs[j]? = some job
  op_eq : job.ops[i]? = some o
  sent : i < job.sent
  minion : p.minion = o.minion
  callback : (s.proxies o.minion).map job.uid = some (o.onDone j)

/-- A datagram of the send is on its way. -/
def InFlight (s : Sys) (j i : ℕ) : Prop :=
  ∃ p ∈ s.toMinion ++ s.toMaster, p.origin = some (j, i)

/-- Lost datagrams put none on its way. -/
theorem InFlight.of_less {s : Sys} {requests answers : List Packet} {j i : ℕ}
    (h : InFlight { s with toMinion := requests, toMaster := answers } j i)
    (hrequests : ∀ p ∈ requests, p ∈ s.toMinion) (hanswers : ∀ p ∈ answers, p ∈ s.toMaster) :
    InFlight s j i := by
  obtain ⟨p, hp, horig⟩ := h
  exact ⟨p, List.mem_append.mpr ((List.mem_append.mp hp).imp (hrequests p) (hanswers p)), horig⟩

/-- The answer of the send is in its slot. -/
def SlotDone (job : Job) (o : SendOp) : Prop :=
  ∃ t g, job.ticket = some t ∧ t.segments[o.segIdx]? = some g ∧ g.done o.role = true

/-- The datagram of the send. -/
def IsRequest (p : Packet) (o : SendOp) : Prop :=
  ∃ beyond, o.message.datagram beyond = some p.bytes

/-- An answer the master decodes, with the UID of the request. -/
def IsAnswer (p : Packet) (job : Job) : Prop :=
  ∃ reply : AMessage, reply.getUID = job.uid ∧
    ∀ stack, receive masterTypes stack p.bytes = .message reply

structure Net (M : MinionManager) (s : Sys) : Prop where
  master : s.master.Inv
  admissible : ∀ (j : ℕ) (job : Job), s.master.jobs[j]? = some job → Admissible M job.req
  planned : ∀ (j : ℕ) (job : Job), s.master.jobs[j]? = some job → Planned M job
  requests : ∀ p ∈ s.toMinion, ∃ j i job o, Tracked s.master p j i job o ∧ IsRequest p o
  answers : ∀ p ∈ s.toMaster, ∃ j i job o, Tracked s.master p j i job o ∧ IsAnswer p job
  nodup : ((s.toMinion ++ s.toMaster).map Packet.origin).Nodup

variable {M : MinionManager}

/-- The sends of a request report to different slots. -/
theorem Planned.slot_inj {job : Job} (h : Planned M job) {i k j : ℕ} {o o' : SendOp}
    (ho : job.ops[i]? = some o) (ho' : job.ops[k]? = some o') (he : o.onDone j = o'.onDone j) :
    i = k := by
  have hops : job.ops = fanOut job.req.op job.uid job.req.data (job.segments M) :=
    h.ops_eq fun hn => by simp [(h.noTicket hn).1] at ho
  have hnd := fanOut_slots_nodup job.req.op job.uid job.req.data (job.segments M)
  rw [← hops] at hnd
  simp only [SendOp.onDone, Callback.mk.injEq, true_and] at he
  have hlt : i < (job.ops.map fun o => (o.segIdx, o.role)).length := by
    simpa using (List.getElem?_eq_some_iff.mp ho).1
  refine (List.getElem?_inj hlt hnd).mp ?_
  rw [List.getElem?_map, List.getElem?_map, ho, ho', Option.map_some, Option.map_some, he.1, he.2]

/-- The segment a send belongs to. -/
theorem Planned.segment {job : Job} (h : Planned M job) {i : ℕ} {o : SendOp}
    (ho : job.ops[i]? = some o) :
    ∃ seg, (job.segments M)[o.segIdx]? = some seg ∧ o.minion = roleMinion seg o.role ∧
      o.message = segmentMessage job.req.op job.uid job.req.data seg := by
  have hops : job.ops = fanOut job.req.op job.uid job.req.data (job.segments M) :=
    h.ops_eq fun hn => by simp [(h.noTicket hn).1] at ho
  exact mem_fanOut.mp (hops ▸ List.mem_of_getElem? ho)

/-- The send of a segment to one of its mirrors. -/
theorem Planned.send {job : Job} (h : Planned M job) (ht : job.ticket ≠ none) {x : ℕ}
    {seg : StripeSegment} (hx : (job.segments M)[x]? = some seg) (r : MirrorRole) :
    ∃ (i : ℕ) (o : SendOp), job.ops[i]? = some o ∧ o.segIdx = x ∧ o.role = r ∧
      o.minion = roleMinion seg r := by
  have hmem : (⟨roleMinion seg r, x, r, segmentMessage job.req.op job.uid job.req.data seg⟩ :
      SendOp) ∈ job.ops := by
    rw [h.ops_eq ht]
    exact mem_fanOut.mpr ⟨seg, hx, rfl, rfl⟩
  obtain ⟨i, hi⟩ := List.mem_iff_getElem?.mp hmem
  exact ⟨i, _, hi, rfl, rfl, rfl⟩

/-! ### Steps of the master -/

section Master
variable {s s' : MasterState} {j : ℕ} {job job' : Job} {ok : Bool} {pk : Option Packet}

theorem advance_ops (h : MasterState.Advances M s j job ok job' s' pk) (hs : job.Sound)
    (hp : Planned M job) (hpos : 0 < job.sent) : job'.ops = job.ops := by
  cases h with
  | create _ hq t ops _ =>
    have hsent := (hp.noTicket (hs.early (.inr hq))).2
    omega
  | _ => rfl

theorem advance_planned (h : MasterState.Advances M s j job ok job' s' pk) (hs : job.Sound)
    (hp : Planned M job) : Planned M job' := by
  cases h with
  | onNewTask _ _ => exact ⟨hp.noTicket, hp.ops_eq, hp.shape, hp.sent_le⟩
  | reject _ _ _ _ => exact ⟨hp.noTicket, hp.ops_eq, hp.shape, hp.sent_le⟩
  | create _ hq t ops hadd =>
    obtain ⟨-, rfl, rfl⟩ := addTask_ok hadd
    have hsent := (hp.noTicket (hs.early (.inr hq))).2
    refine ⟨by simp, fun _ => rfl, ?_, by simp [hsent]⟩
    rintro t ⟨⟩
    simp [Ticket.create, Job.segments, SegmentState.ofSegment, Function.comp_def]
  | announce _ _ =>
    refine ⟨fun hn => hp.noTicket (by simpa using hn), fun hn => hp.ops_eq (by simpa using hn), ?_,
      hp.sent_le⟩
    intro t ht
    obtain ⟨t₀, ht₀, rfl⟩ := Option.map_eq_some_iff.mp ht
    exact hp.shape t₀ ht₀
  | send _ o d beyond ho _ _ =>
    refine ⟨fun hn => ?_, hp.ops_eq, hp.shape, (List.getElem?_eq_some_iff.mp ho).1⟩
    simp [(hp.noTicket hn).1] at ho
  | sendFails _ _ _ => exact ⟨hp.noTicket, hp.ops_eq, hp.shape, hp.sent_le⟩

/-- Where no waiting callback is replaced, all of them stay. -/
theorem advance_callbacks (h : MasterState.Advances M s j job ok job' s' pk)
    (hj : s.jobs[j]? = some job) (hfree : FreeSlot s j) {m : ℕ} {u : UID} {cb : Callback}
    (hcb : (s.proxies m).map u = some cb) : (s'.proxies m).map u = some cb := by
  have hreg : ∀ {o : SendOp}, job.phase = .sending → job.ops[job.sent]? = some o →
      ((s.withProxy o.minion ((s.proxies o.minion).register job.uid (o.onDone j))).proxies m).map u
        = some cb := by
    intro o hp ho
    have hnone := hfree job hj hp o ho
    simp only [MasterState.withProxy]
    by_cases hm : m = o.minion
    · subst hm
      have hu : u ≠ job.uid := fun hu => by
        subst hu
        rw [hcb] at hnone
        cases hnone
      rw [Function.update_self, MinionProxy.register_of_ne _ _ hu]
      exact hcb
    · rw [Function.update_of_ne hm]
      exact hcb
  cases h with
  | onNewTask _ _ => exact hcb
  | reject _ _ _ _ => exact hcb
  | create _ _ _ _ _ => exact hcb
  | announce _ _ => exact hcb
  | send hp o d beyond ho _ _ => exact hreg hp ho
  | sendFails hp o ho => exact hreg hp ho

/-- Tracked datagrams stay tracked. -/
theorem Tracked.mono {p : Packet} {k i : ℕ} {job₁ job₂ : Job} {o : SendOp}
    (h : Tracked s p k i job₁ o) (hj : s'.jobs[k]? = some job₂) (hu : job₂.uid = job₁.uid)
    (hops : job₂.ops = job₁.ops) (hsent : job₁.sent ≤ job₂.sent)
    (hcb : (s'.proxies o.minion).map job₁.uid = some (o.onDone k)) : Tracked s' p k i job₂ o :=
  ⟨h.origin, hj, hops ▸ h.op_eq, lt_of_lt_of_le h.sent hsent, h.minion, hu ▸ hcb⟩

theorem advance_tracked (h : MasterState.Advances M s j job ok job' s' pk)
    (hj : s.jobs[j]? = some job)
    (hs : job.Sound) (hp : Planned M job) (hfree : FreeSlot s j) {p : Packet} {k i : ℕ}
    {job₁ : Job} {o : SendOp} (ht : Tracked s p k i job₁ o) :
    ∃ job₂, Tracked s' p k i job₂ o ∧ job₂.uid = job₁.uid := by
  obtain ⟨hjobs, hu, -, hsent⟩ := h.frame
  have hcb := advance_callbacks h hj hfree ht.callback
  have hget : s'.jobs[k]? = if k = j then some job' else s.jobs[k]? := by
    rw [hjobs]
    exact MasterState.jobs_setJob hj job' k
  by_cases hk : k = j
  · subst hk
    obtain rfl : job = job₁ := Option.some.inj (hj.symm.trans ht.job_eq)
    rw [if_pos rfl] at hget
    have hops := advance_ops h hs hp (lt_of_le_of_lt (Nat.zero_le _) ht.sent)
    exact ⟨job', ht.mono hget hu hops hsent hcb, hu⟩
  · rw [if_neg hk, ht.job_eq] at hget
    exact ⟨job₁, ht.mono hget rfl rfl le_rfl hcb, rfl⟩

/-- The datagram of a new send is tracked. -/
theorem advance_packet {p : Packet} (h : MasterState.Advances M s j job ok job' s' (some p))
    (hj : s.jobs[j]? = some job) : ∃ o, Tracked s' p j job.sent job' o ∧ IsRequest p o := by
  cases h with
  | send hp o d beyond ho hm hd =>
    refine ⟨o, ⟨rfl, ?_, ho, Nat.lt_succ_self _, rfl, ?_⟩, beyond, hd⟩
    · rw [MasterState.jobs_setJob (by exact hj), if_pos rfl]
    · simp [MasterState.setJob, MasterState.withProxy]

/-- An answer with a waiting callback is handed to it. -/
theorem wakeUp_tracked {q : Packet} {k n : ℕ} {o : SendOp} {reply : AMessage} {stack : ℕ → UInt8}
    (ht : Tracked s q k n job o) (hu : reply.getUID = job.uid)
    (hr : receive masterTypes stack q.bytes = .message reply) :
    s.wakeUp q.minion stack q.bytes =
      some ((s.withProxy o.minion ⟨Function.update (s.proxies o.minion).map job.uid none⟩
        ).onMirrorResponse (o.onDone k) reply) := by
  simp only [MasterState.wakeUp, MinionProxy.onMinionFDWakeUp, hr, ht.minion]
  rw [MinionProxy.dispatch_of_some (by rw [hu]; exact ht.callback), hu]

end Master

/-! ### Steps of the drive -/

section Sys
variable {s s' : Sys}

/-- The network without a datagram has the others. -/
theorem origin_ne_of_mem_eraseIdx {l : List Packet} (hn : (l.map Packet.origin).Nodup) {i : ℕ}
    {p q : Packet} (hq : l[i]? = some q) (hp : p ∈ l.eraseIdx i) : p.origin ≠ q.origin := by
  obtain ⟨k, hk, hpk⟩ := List.mem_eraseIdx_iff_getElem?.mp hp
  intro he
  have hlt : k < (l.map Packet.origin).length := by
    simpa using (List.getElem?_eq_some_iff.mp hpk).1
  refine hk ((List.getElem?_inj hlt hn).mp ?_)
  rw [List.getElem?_map, List.getElem?_map, hpk, hq, Option.map_some, Option.map_some, he]

/-- A minion serves a datagram. -/
structure Executes (s s' : Sys) (i : ℕ) (stack heap : ℕ → UInt8) (p : Packet) (f : FileManager)
    (a : Option (List UInt8)) : Prop where
  packet : s.toMinion[i]? = some p
  served : serve stack heap (s.files p.minion) p.bytes = some (f, a)
  master : s'.master = s.master
  toMinion : s'.toMinion = s.toMinion.eraseIdx i
  toMaster : s'.toMaster = s.toMaster ++ (a.map fun d => ⟨p.minion, p.origin, d⟩).toList
  files : s'.files = Function.update s.files p.minion f
  executed : s'.executed = s.executed ++ Sys.taskOf stack p

theorem execute_cases {i : ℕ} {stack heap : ℕ → UInt8} (h : s.execute i stack heap = some s') :
    ∃ p f a, Executes s s' i stack heap p f a := by
  simp only [Sys.execute, Option.bind_eq_bind, Option.bind_eq_some_iff, Option.pure_def,
    Option.some.injEq] at h
  obtain ⟨p, hp, ⟨f, a⟩, hr, rfl⟩ := h
  exact ⟨p, f, a, hp, hr, rfl, rfl, rfl, rfl, rfl⟩

/-- The master handles an answer: the slot of its send gets it. -/
structure Delivers (s s' : Sys) (i : ℕ) (q : Packet) (k n : ℕ) (job : Job) (o : SendOp)
    (reply : AMessage) (t : Ticket) : Prop where
  packet : s.toMaster[i]? = some q
  tracked : Tracked s.master q k n job o
  uid : reply.getUID = job.uid
  decoded : ∀ stack, receive masterTypes stack q.bytes = .message reply
  ticket : job.ticket = some t
  jobs : s'.master.jobs = s.master.jobs.set k { job with
    ticket := some (t.onMirrorResponse o.segIdx o.role (some reply)).1 }
  proxies : s'.master.proxies = Function.update s.master.proxies o.minion
    ⟨Function.update (s.master.proxies o.minion).map job.uid none⟩
  toMinion : s'.toMinion = s.toMinion
  toMaster : s'.toMaster = s.toMaster.eraseIdx i
  files : s'.files = s.files
  executed : s'.executed = s.executed
  outcome :
    MasterState.Quiet s.master s'.master k job { job with
        ticket := some (t.onMirrorResponse o.segIdx o.role (some reply)).1 } ∨
      MasterState.Completes s.master s'.master k job { job with
        ticket := some (t.onMirrorResponse o.segIdx o.role (some reply)).1 }

theorem answer_cases (hs : Net M s) {i : ℕ} {stack : ℕ → UInt8}
    (h : s.answer i stack = some s') :
    ∃ q k n job o reply t, Delivers s s' i q k n job o reply t := by
  simp only [Sys.answer, Option.bind_eq_bind, Option.bind_eq_some_iff, Option.pure_def,
    Option.some.injEq] at h
  obtain ⟨q, hq, master, hm, rfl⟩ := h
  obtain ⟨k, n, job, o, ht, reply, hu, hr⟩ := hs.answers q (List.mem_of_getElem? hq)
  rw [wakeUp_tracked ht hu (hr stack), Option.some.injEq] at hm
  obtain ⟨job₁, hj₁, t, hticket, -⟩ := hs.master.callbacks _ _ _ ht.callback
  obtain rfl : job₁ = job := Option.some.inj (hj₁.symm.trans ht.job_eq)
  obtain ⟨hjobs, hproxies⟩ := MasterState.onMirrorResponse_frame
    (s := s.master.withProxy o.minion
      ⟨Function.update (s.master.proxies o.minion).map job₁.uid none⟩) (o.onDone k) reply
    ht.job_eq hticket
  obtain ⟨job₂, t₂, hj₂, hticket₂, hout⟩ :=
    MasterState.onMirrorResponse_cases hs.master ht.callback reply hm.symm
  obtain rfl : job₁ = job₂ := Option.some.inj (hj₁.symm.trans hj₂)
  obtain rfl : t = t₂ := Option.some.inj (hticket.symm.trans hticket₂)
  subst hm
  exact ⟨q, k, n, job₁, o, reply, t, hq, ht, hu, hr, hticket, hjobs, hproxies, rfl, rfl, rfl, rfl,
    hout.imp And.right And.right⟩

section Delivery
variable {i k n : ℕ} {q : Packet} {job : Job} {o : SendOp} {reply : AMessage} {t : Ticket}

/-- The request after the answer. -/
abbrev Delivers.after (_ : Delivers s s' i q k n job o reply t) : Job :=
  { job with ticket := some (t.onMirrorResponse o.segIdx o.role (some reply)).1 }

theorem Delivers.getElem? (h : Delivers s s' i q k n job o reply t) (l : ℕ) :
    s'.master.jobs[l]? = if l = k then some h.after else s.master.jobs[l]? := by
  rw [h.jobs]
  exact MasterState.jobs_setJob h.tracked.job_eq h.after l

/-- The plan of the request is the same after the answer. -/
theorem Delivers.planned (h : Delivers s s' i q k n job o reply t) (hs : Net M s) :
    Planned M h.after := by
  have hplan := hs.planned k job h.tracked.job_eq
  refine ⟨by simp, fun _ => hplan.ops_eq (by simp [h.ticket]), ?_, hplan.sent_le⟩
  rintro t' ⟨⟩
  rw [Ticket.onMirrorResponse_shape]
  exact hplan.shape t h.ticket

end Delivery

end Sys

end IoTDrive.System
