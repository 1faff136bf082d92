import IoTDrive.Master.Steps

/-! The entries of pending requests. As long as a request has not been replied, its reply
entry, its request entry and its ticket entry are in place, and its ticket has one
listener; so the answer that completes the ticket writes one whole reply. Every step
is quiet, which leaves this alone, or completes one request. -/

namespace IoTDrive.Master

open Lib Message Stripe MinionProxy

/-! ### The invariant -/

/-- The ticket has its listener. -/
def Job.Announced (job : Job) : Prop := ∃ t, job.ticket = some t ∧ t.listeners = 1

/-- What holds of one request by itself. -/
structure Job.Sound (job : Job) : Prop where
  early : job.phase = .received ∨ job.phase = .queued → job.ticket = none
  created : job.phase = .created → ∃ t, job.ticket = some t ∧ t.listeners = 0 ∧ t.completed = false
  sending : job.phase = .sending → job.Announced
  aborted : job.phase = .aborted → job.ticket ≠ none → job.Announced
  ticket_eq : ∀ t, job.ticket = some t →
    t.uid = job.uid ∧ t.op = job.req.op ∧ t.totalLength = job.req.length.toNat

/-- The reply of a request whose ticket has completed. -/
def Job.reply (job : Job) : List (Option UInt8) :=
  match job.ticket with
  | some t => NbdReply.bytes ⟨0, job.req.handle⟩ t.outcome
  | none => []

namespace MasterState

/-- The entries of a request that is not replied yet. -/
structure Waiting (s : MasterState) (j : ℕ) (job : Job) : Prop where
  response : s.responses job.uid = some ⟨0, job.req.handle⟩
  request : job.phase ≠ .received → s.requests job.uid = true
  ticket : job.ticket ≠ none → s.tickets job.uid = some j

/-- What was written for request number `j`. -/
def replyAt (s : MasterState) (j : ℕ) : List (Option UInt8) :=
  match s.jobs[j]? with
  | some job => job.reply
  | none => []

/-- The requests replied so far, in order; the socket has seen their replies and nothing
else. -/
def Stream (s : MasterState) (order : List ℕ) : Prop :=
  order.Nodup ∧ (∀ j, j ∈ order ↔ ∃ job : Job, s.jobs[j]? = some job ∧ job.completed = true) ∧
    s.nbdOut = order.flatMap s.replyAt

structure Inv (s : MasterState) : Prop where
  sound : ∀ (j : ℕ) (job : Job), s.jobs[j]? = some job → job.Sound
  waiting : ∀ (j : ℕ) (job : Job), s.jobs[j]? = some job → job.completed = false → s.Waiting j job
  distinct : ∀ (j k : ℕ) (job job' : Job), s.jobs[j]? = some job → s.jobs[k]? = some job' →
    job.completed = false → job'.completed = false → job.uid = job'.uid → j = k
  owned : ∀ u, s.responses u ≠ none ∨ s.requests u = true ∨ s.tickets u ≠ none →
    ∃ (j : ℕ) (job : Job), s.jobs[j]? = some job ∧ job.completed = false ∧ job.uid = u
  callbacks : ∀ m u cb, (s.proxies m).map u = some cb →
    ∃ job : Job, s.jobs[cb.ticket]? = some job ∧ job.Announced
  stream : ∃ order, s.Stream order

theorem init_inv : Inv init where
  sound := by simp [init]
  waiting := by simp [init]
  distinct := by simp [init]
  owned := by simp [init]
  callbacks := by simp [init, MinionProxy.empty]
  stream := ⟨[], by simp [init, Stream]⟩

variable {M : MinionManager} {s s' : MasterState} {j : ℕ} {job job' : Job}

/-- A transition of one request that completes nothing. Its own entries may change as
long as it has them all. -/
structure Quiet (s s' : MasterState) (j : ℕ) (job job' : Job) : Prop where
  jobs : s'.jobs = s.jobs.set j job'
  uid : job'.uid = job.uid
  req : job'.req = job.req
  sound : job'.Sound
  completed : job'.completed = job.completed
  reply : job.completed = true → job'.ticket = job.ticket
  announced : job.Announced → job'.Announced
  responses : s'.responses = s.responses
  nbdOut : s'.nbdOut = s.nbdOut
  others : ∀ u, u ≠ job.uid ∨ job.completed = true →
    s'.requests u = s.requests u ∧ s'.tickets u = s.tickets u
  waiting : job.completed = false → s'.Waiting j job'
  callbacks : ∀ m u cb, (s'.proxies m).map u = some cb →
    cb.ticket = j ∧ job'.Announced ∨ (s.proxies m).map u = some cb

theorem Quiet.getElem? (hq : Quiet s s' j job job') (hj : s.jobs[j]? = some job) (k : ℕ) :
    s'.jobs[k]? = if k = j then some job' else s.jobs[k]? := by
  rw [hq.jobs]
  exact jobs_setJob hj job' k

theorem Quiet.replyAt (hq : Quiet s s' j job job') (hj : s.jobs[j]? = some job) {k : ℕ}
    (hk : k = j → job.completed = true) : s'.replyAt k = s.replyAt k := by
  simp only [MasterState.replyAt, hq.getElem? hj]
  split_ifs with h
  · subst h
    simp only [hj, Job.reply, hq.reply (hk rfl), hq.req]
  · rfl

theorem Quiet.stream (hq : Quiet s s' j job job') (hj : s.jobs[j]? = some job)
    {order : List ℕ} (h : s.Stream order) : s'.Stream order := by
  obtain ⟨hn, hm, ho⟩ := h
  refine ⟨hn, fun k => ?_, ?_⟩
  · rw [hm k, hq.getElem? hj]
    split_ifs with hk
    · subst hk
      simp [hj, hq.completed]
    · rfl
  · rw [hq.nbdOut, ho]
    apply List.flatMap_congr
    intro k hk
    obtain ⟨job₁, hj₁, hc⟩ := (hm k).mp hk
    exact (hq.replyAt hj fun e => by
      subst e
      rw [Option.some.inj (hj.symm.trans hj₁)]
      exact hc).symm

/-- A transition that completes nothing keeps the invariant. -/
theorem Quiet.inv (hq : Quiet s s' j job job') (hj : s.jobs[j]? = some job) (hs : s.Inv) :
    s'.Inv where
  sound k job₁ h := by
    rw [hq.getElem? hj] at h
    split_ifs at h with hk
    · exact Option.some.inj h ▸ hq.sound
    · exact hs.sound k job₁ h
  waiting k job₁ h hc := by
    rw [hq.getElem? hj] at h
    split_ifs at h with hk
    · obtain rfl := Option.some.inj h
      subst hk
      exact hq.waiting (by rw [← hq.completed]; exact hc)
    · have hw := hs.waiting k job₁ h hc
      have hu : job₁.uid ≠ job.uid ∨ job.completed = true := by
        by_contra hcon
        simp only [not_or, not_not, Bool.not_eq_true] at hcon
        exact hk (hs.distinct k j job₁ job h hj hc hcon.2 hcon.1)
      obtain ⟨hr, ht⟩ := hq.others job₁.uid hu
      exact ⟨by rw [hq.responses]; exact hw.response, fun hp => by rw [hr]; exact hw.request hp,
        fun hn => by rw [ht]; exact hw.ticket hn⟩
  distinct k l job₁ job₂ h₁ h₂ hc₁ hc₂ hu := by
    rw [hq.getElem? hj] at h₁ h₂
    -- both are requests of the state before, with the same UIDs
    have back : ∀ {i : ℕ} {job₀ : Job}, (if i = j then some job' else s.jobs[i]?) = some job₀ →
        job₀.completed = false →
        ∃ job₃ : Job, s.jobs[i]? = some job₃ ∧ job₃.completed = false ∧ job₃.uid = job₀.uid := by
      intro i job₀ h hc
      split_ifs at h with hi
      · obtain rfl := Option.some.inj h
        exact ⟨job, by rw [hi]; exact hj, by rw [← hq.completed]; exact hc, hq.uid.symm⟩
      · exact ⟨job₀, h, hc, rfl⟩
    obtain ⟨a, ha, hca, hua⟩ := back h₁ hc₁
    obtain ⟨b, hb, hcb, hub⟩ := back h₂ hc₂
    exact hs.distinct k l a b ha hb hca hcb (by rw [hua, hub, hu])
  owned u h := by
    have hold : s.responses u ≠ none ∨ s.requests u = true ∨ s.tickets u ≠ none ∨
        u = job.uid ∧ job.completed = false := by
      by_cases hu : u ≠ job.uid ∨ job.completed = true
      · obtain ⟨hr, ht⟩ := hq.others u hu
        rw [hq.responses, hr, ht] at h
        tauto
      · simp only [not_or, not_not, Bool.not_eq_true] at hu
        exact .inr (.inr (.inr hu))
    have hown : ∃ (k : ℕ) (job₁ : Job), s.jobs[k]? = some job₁ ∧ job₁.completed = false ∧
        job₁.uid = u := by
      rcases hold with h | h | h | ⟨rfl, hc⟩
      · exact hs.owned u (.inl h)
      · exact hs.owned u (.inr (.inl h))
      · exact hs.owned u (.inr (.inr h))
      · exact ⟨j, job, hj, hc, rfl⟩
    obtain ⟨k, job₁, hk, hc, rfl⟩ := hown
    by_cases hkj : k = j
    · subst hkj
      obtain rfl : job = job₁ := Option.some.inj (hj.symm.trans hk)
      exact ⟨k, job', by rw [hq.getElem? hj, if_pos rfl], by rw [hq.completed]; exact hc, hq.uid⟩
    · exact ⟨k, job₁, by rw [hq.getElem? hj, if_neg hkj]; exact hk, hc, rfl⟩
  callbacks m u cb h := by
    rw [hq.getElem? hj]
    rcases hq.callbacks m u cb h with ⟨hcb, ha⟩ | h
    · exact ⟨job', by rw [if_pos hcb], ha⟩
    · obtain ⟨job₁, h₁, ha⟩ := hs.callbacks m u cb h
      split_ifs with hcb
      · rw [hcb, hj, Option.some.injEq] at h₁
        exact ⟨job', rfl, hq.announced (h₁ ▸ ha)⟩
      · exact ⟨job₁, h₁, ha⟩
  stream := by
    obtain ⟨order, ho⟩ := hs.stream
    exact ⟨order, hq.stream hj ho⟩

/-! ### The steps of a request -/

/-- A registration adds one callback of the request. -/
theorem register_callbacks {o : SendOp} {job' job₀ : Job} (hann : job'.Announced) {m : ℕ} {u : UID}
    {cb : Callback}
    (h : (((s.withProxy o.minion ((s.proxies o.minion).register job.uid (o.onDone j))).setJob j
      job₀).proxies m).map u = some cb) :
    cb.ticket = j ∧ job'.Announced ∨ (s.proxies m).map u = some cb := by
  simp only [setJob, withProxy] at h
  by_cases hm : m = o.minion
  · subst hm
    rw [Function.update_self] at h
    by_cases hu : u = job.uid
    · subst hu
      rw [register_self, Option.some.injEq] at h
      exact .inl ⟨by rw [← h]; rfl, hann⟩
    · rw [register_of_ne _ _ hu] at h
      exact .inr h
  · rw [Function.update_of_ne hm] at h
    exact .inr h

theorem Advances.quiet {ok : Bool} {pk : Option Packet} (h : Advances M s j job ok job' s' pk)
    (hj : s.jobs[j]? = some job) (hs : s.Inv) : Quiet s s' j job job' := by
  have hsound := hs.sound j job hj
  have hwait := hs.waiting j job hj
  cases h with
  | onNewTask _ hp =>
    have ht := hsound.early (.inl hp)
    have hc : job.completed = false := by simp [Job.completed, ht]
    refine ⟨rfl, rfl, rfl, ?_, rfl, fun _ => rfl, id, rfl, rfl,
      fun u hu => ⟨?_, rfl⟩, fun _ => ⟨(hwait hc).response, fun _ => ?_, (hwait hc).ticket⟩,
      fun _ _ _ h => .inr h⟩
    · exact ⟨fun _ => ht, by simp, by simp, by simp, hsound.ticket_eq⟩
    · rcases hu with hu | hu
      · simp [MasterState.onNewTask, setJob, hu]
      · simp [hc] at hu
    · simp [MasterState.onNewTask, setJob]
  | reject _ hp e _ =>
    have ht := hsound.early (.inr hp)
    have hc : job.completed = false := by simp [Job.completed, ht]
    refine ⟨rfl, rfl, rfl, ?_, rfl, fun _ => rfl, id, rfl, rfl,
      fun _ _ => ⟨rfl, rfl⟩, fun _ => ⟨(hwait hc).response, fun _ => (hwait hc).request ?_,
      (hwait hc).ticket⟩, fun _ _ _ h => .inr h⟩
    · exact ⟨by simp, by simp, by simp, fun _ hn => absurd ht hn, hsound.ticket_eq⟩
    · simp [hp]
  | create _ hp t ops hadd =>
    obtain ⟨-, rfl, -⟩ := addTask_ok hadd
    have ht := hsound.early (.inr hp)
    have hc : job.completed = false := by simp [Job.completed, ht]
    refine ⟨rfl, rfl, rfl, ?_, ?_, ?_, ?_, rfl, rfl, fun u hu => ⟨rfl, ?_⟩, fun _ =>
      ⟨(hwait hc).response, fun _ => (hwait hc).request (by simp [hp]), fun _ => ?_⟩,
      fun _ _ _ h => .inr h⟩
    · refine ⟨by simp, fun _ => ⟨_, rfl, rfl, rfl⟩, by simp, by simp, ?_⟩
      rintro _ ⟨⟩
      exact ⟨rfl, rfl, rfl⟩
    · simp [Job.completed, ht, Ticket.create]
    · simp [hc]
    · rintro ⟨t, ht', -⟩
      simp [ht] at ht'
    · rcases hu with hu | hu
      · simp [hu]
      · simp [hc] at hu
    · simp
  | announce _ hp =>
    obtain ⟨t, ht, hl, hcomp⟩ := hsound.created hp
    have hc : job.completed = false := by simp [Job.completed, ht, hcomp]
    have hann : Job.Announced { job with
        phase := .sending
        ticket := job.ticket.map Ticket.registerToResultDispatcher } :=
      ⟨t.registerToResultDispatcher, by simp [ht], by simp [Ticket.registerToResultDispatcher, hl]⟩
    refine ⟨rfl, rfl, rfl, ?_, ?_, ?_, fun _ => hann, rfl, rfl, fun _ _ => ⟨rfl, rfl⟩,
      fun _ => ⟨(hwait hc).response, fun _ => (hwait hc).request (by simp [hp]),
      fun _ => (hwait hc).ticket (by simp [ht])⟩, fun _ _ _ h => .inr h⟩
    · refine ⟨by simp, by simp, fun _ => hann, by simp, ?_⟩
      simp only [ht, Option.map_some, Option.some.injEq, forall_eq']
      exact hsound.ticket_eq t ht
    · simp [Job.completed, ht, Ticket.registerToResultDispatcher]
    · simp [hc]
  | send hp o d beyond _ _ _ =>
    have hann := hsound.sending hp
    refine ⟨rfl, rfl, rfl, ⟨hsound.early, hsound.created, hsound.sending, hsound.aborted,
      hsound.ticket_eq⟩, rfl, fun _ => rfl, id, rfl, rfl, fun _ _ => ⟨rfl, rfl⟩,
      fun hc => ⟨(hwait hc).response, (hwait hc).request, (hwait hc).ticket⟩, ?_⟩
    exact fun m u cb h => register_callbacks hann h
  | sendFails hp o _ =>
    have hann := hsound.sending hp
    refine ⟨rfl, rfl, rfl, ⟨by simp, by simp, by simp, fun _ _ => hann, hsound.ticket_eq⟩, rfl,
      fun _ => rfl, id, rfl, rfl, fun _ _ => ⟨rfl, rfl⟩,
      fun hc => ⟨(hwait hc).response, fun _ => (hwait hc).request (by simp [hp]),
      (hwait hc).ticket⟩, ?_⟩
    exact fun m u cb h => register_callbacks hann h

/-! ### Answers -/

/-- The answer that completes a ticket: the entries of the request go and its reply is
written. -/
structure Completes (s s' : MasterState) (j : ℕ) (job job' : Job) : Prop where
  jobs : s'.jobs = s.jobs.set j job'
  uid : job'.uid = job.uid
  req : job'.req = job.req
  sound : job'.Sound
  pending : job.completed = false
  completed : job'.completed = true
  announced : job.Announced ∧ job'.Announced
  request : s.requests job.uid = true
  response : s.responses job.uid = some ⟨0, job.req.handle⟩
  responses : s'.responses = Function.update s.responses job.uid none
  requests : s'.requests = Function.update s.requests job.uid false
  tickets : s'.tickets = Function.update s.tickets job.uid none
  callbacks : ∀ m u cb, (s'.proxies m).map u = some cb → (s.proxies m).map u = some cb
  nbdOut : s'.nbdOut = s.nbdOut ++ job'.reply

theorem Completes.getElem? (hq : Completes s s' j job job') (hj : s.jobs[j]? = some job) (k : ℕ) :
    s'.jobs[k]? = if k = j then some job' else s.jobs[k]? := by
  rw [hq.jobs]
  exact jobs_setJob hj job' k

theorem Completes.stream (hq : Completes s s' j job job') (hj : s.jobs[j]? = some job)
    {order : List ℕ} (h : s.Stream order) : s'.Stream (order ++ [j]) := by
  obtain ⟨hn, hm, ho⟩ := h
  have hnot : j ∉ order := fun hmem => by
    obtain ⟨job₁, h₁, hc⟩ := (hm j).mp hmem
    rw [← Option.some.inj (hj.symm.trans h₁), hq.pending] at hc
    cases hc
  refine ⟨?_, fun k => ?_, ?_⟩
  · exact List.Nodup.append hn (List.nodup_singleton j) (by simpa using hnot)
  · rw [List.mem_append, List.mem_singleton, hm k, hq.getElem? hj]
    split_ifs with hk
    · simp [hk, hq.completed]
    · simp [hk]
  · rw [hq.nbdOut, ho, List.flatMap_append, List.flatMap_singleton]
    congr 1
    · apply List.flatMap_congr
      intro k hk
      have hkj : k ≠ j := fun e => hnot (e ▸ hk)
      simp only [replyAt, hq.getElem? hj, if_neg hkj]
    · simp [replyAt, hq.getElem? hj]

theorem Completes.inv (hq : Completes s s' j job job') (hj : s.jobs[j]? = some job) (hs : s.Inv) :
    s'.Inv where
  sound k job₁ h := by
    rw [hq.getElem? hj] at h
    split_ifs at h with hk
    · exact Option.some.inj h ▸ hq.sound
    · exact hs.sound k job₁ h
  waiting k job₁ h hc := by
    rw [hq.getElem? hj] at h
    split_ifs at h with hk
    · rw [← Option.some.inj h, hq.completed] at hc
      cases hc
    · have hw := hs.waiting k job₁ h hc
      have hu : job₁.uid ≠ job.uid := fun hu => hk (hs.distinct k j job₁ job h hj hc hq.pending hu)
      exact ⟨by rw [hq.responses, Function.update_of_ne hu]; exact hw.response,
        fun hp => by rw [hq.requests, Function.update_of_ne hu]; exact hw.request hp,
        fun hn => by rw [hq.tickets, Function.update_of_ne hu]; exact hw.ticket hn⟩
  distinct k l job₁ job₂ h₁ h₂ hc₁ hc₂ hu := by
    rw [hq.getElem? hj] at h₁ h₂
    split_ifs at h₁ with hk
    · rw [← Option.some.inj h₁, hq.completed] at hc₁
      cases hc₁
    split_ifs at h₂ with hl
    · rw [← Option.some.inj h₂, hq.completed] at hc₂
      cases hc₂
    exact hs.distinct k l job₁ job₂ h₁ h₂ hc₁ hc₂ hu
  owned u h := by
    by_cases hu : u = job.uid
    · subst hu
      rw [hq.responses, hq.requests, hq.tickets] at h
      simp at h
    · rw [hq.responses, hq.requests, hq.tickets, Function.update_of_ne hu, Function.update_of_ne hu,
        Function.update_of_ne hu] at h
      obtain ⟨k, job₁, hk, hc, rfl⟩ := hs.owned u h
      have hkj : k ≠ j := by
        rintro rfl
        exact hu (by rw [Option.some.inj (hj.symm.trans hk)])
      exact ⟨k, job₁, by rw [hq.getElem? hj, if_neg hkj]; exact hk, hc, rfl⟩
  callbacks m u cb h := by
    obtain ⟨job₁, h₁, ha⟩ := hs.callbacks m u cb (hq.callbacks m u cb h)
    rw [hq.getElem? hj]
    split_ifs with hcb
    · exact ⟨job', rfl, hq.announced.2⟩
    · exact ⟨job₁, h₁, ha⟩
  stream := by
    obtain ⟨order, ho⟩ := hs.stream
    exact ⟨_, hq.stream hj ho⟩

/-- Taking a callback out of a proxy leaves the others. -/
theorem withProxy_callbacks {m n : ℕ} {u v : UID} {cb : Callback}
    (h : ((s.withProxy m ⟨Function.update (s.proxies m).map u none⟩).proxies n).map v = some cb) :
    (s.proxies n).map v = some cb := by
  simp only [withProxy] at h
  by_cases hn : n = m
  · subst hn
    rw [Function.update_self] at h
    by_cases hv : v = u
    · subst hv
      simp at h
    · exact (Function.update_of_ne hv _ _).symm.trans h
  · rwa [Function.update_of_ne hn] at h

/-- The job after an answer has been stored in its ticket. -/
theorem sound_withTicket {t t' : Ticket} (hs : job.Sound) (ht : job.ticket = some t)
    (hl : t.listeners = 1) (hl' : t'.listeners = 1) (hu : t'.uid = t.uid) (hop : t'.op = t.op)
    (htot : t'.totalLength = t.totalLength) : Job.Sound { job with ticket := some t' } where
  early hp := by simp [hs.early hp] at ht
  created hp := by
    obtain ⟨t₁, h₁, h₂, -⟩ := hs.created hp
    rw [ht, Option.some.injEq] at h₁
    subst h₁
    omega
  sending _ := ⟨t', rfl, hl'⟩
  aborted _ _ := ⟨t', rfl, hl'⟩
  ticket_eq t₁ h₁ := by
    obtain rfl := Option.some.inj h₁
    rw [hu, hop, htot]
    exact hs.ticket_eq t ht

theorem onTicketDone_eq {res : TaskResult} {uid : UID} {reply : NbdReply} (hu : res.uid = uid)
    (hreq : s.requests uid = true) (hresp : s.responses uid = some reply) :
    s.onTicketDone res = { s with
      tickets := Function.update s.tickets uid none
      requests := Function.update s.requests uid false
      responses := Function.update s.responses uid none
      nbdOut := s.nbdOut ++ reply.bytes res } := by
  simp only [onTicketDone, onNBDResponse, hu, hreq, hresp, if_true]

/-- A callback hands the answer to its ticket, which stores it or completes. -/
theorem onMirrorResponse_cases (hs : s.Inv) {m : ℕ} {u : UID} {cb : Callback}
    (hcb : (s.proxies m).map u = some cb) (msg : AMessage)
    (h : s' = (s.withProxy m ⟨Function.update (s.proxies m).map u none⟩).onMirrorResponse cb msg) :
    ∃ job t, s.jobs[cb.ticket]? = some job ∧ job.ticket = some t ∧
      ((t.onMirrorResponse cb.segIdx cb.role (some msg)).2 = none ∧
          Quiet s s' cb.ticket job { job with
            ticket := some (t.onMirrorResponse cb.segIdx cb.role (some msg)).1 } ∨
        (t.onMirrorResponse cb.segIdx cb.role (some msg)).2 ≠ none ∧
          Completes s s' cb.ticket job { job with
            ticket := some (t.onMirrorResponse cb.segIdx cb.role (some msg)).1 }) := by
  obtain ⟨job, hj, t, ht, hl⟩ := hs.callbacks m u cb hcb
  refine ⟨job, t, hj, ht, ?_⟩
  obtain ⟨hu, hop, htot, hl'⟩ := Ticket.onMirrorResponse_frame t cb.segIdx cb.role (some msg)
  have hsound := sound_withTicket (hs.sound _ job hj) ht hl (hl'.trans hl) hu hop htot
  have hcallbacks : ∀ n v c,
      (((s.withProxy m ⟨Function.update (s.proxies m).map u none⟩)).proxies n).map v = some c →
        (s.proxies n).map v = some c := fun n v c => withProxy_callbacks
  have hjobs : (s.withProxy m ⟨Function.update (s.proxies m).map u none⟩).jobs[cb.ticket]? =
      some job := hj
  have hwait := hs.waiting _ job hj
  obtain ⟨huid, -, -⟩ := (hs.sound _ job hj).ticket_eq t ht
  cases hr : t.onMirrorResponse cb.segIdx cb.role (some msg) with
  | mk t' res =>
  rw [hr] at hu hop htot hl' hsound
  cases res with
  | none =>
    refine .inl ⟨rfl, ?_⟩
    have hc := Ticket.onMirrorResponse_none hr
    simp only [onMirrorResponse, hjobs, ht, hr] at h
    subst h
    refine ⟨rfl, rfl, rfl, hsound, by simp [Job.completed, ht, hc], fun hcomp => ?_,
      fun _ => ⟨t', rfl, hl'.trans hl⟩, rfl, rfl, fun _ _ => ⟨rfl, rfl⟩,
      fun hc => ⟨(hwait hc).response, (hwait hc).request, fun _ => (hwait hc).ticket (by simp [ht])⟩,
      fun n v c h => .inr (hcallbacks n v c h)⟩
    have hcomp' : t.completed = true := by simpa [Job.completed, ht] using hcomp
    rw [Ticket.onMirrorResponse_completed hcomp', Prod.mk.injEq] at hr
    simp [ht, hr.1]
  | some res =>
    refine .inr ⟨by simp, ?_⟩
    obtain ⟨hpend, hcomp, rfl⟩ := Ticket.onMirrorResponse_some hr
    have hc : job.completed = false := by simp [Job.completed, ht, hpend]
    have hphase : job.phase ≠ .received := fun hp => by
      simp [(hs.sound _ job hj).early (.inl hp)] at ht
    have hresp := (hwait hc).response
    have hreq := (hwait hc).request hphase
    have hout : t'.outcome.uid = job.uid := by
      rw [← huid]
      exact hu
    simp only [onMirrorResponse, hjobs, ht, hr, hl, Function.iterate_one] at h
    obtain rfl := h.trans (onTicketDone_eq (s := (s.withProxy m _).setJob cb.ticket _)
      hout hreq hresp)
    exact ⟨rfl, rfl, rfl, hsound, hc, by simp [Job.completed, hcomp],
      ⟨⟨t, ht, hl⟩, ⟨t', rfl, hl'.trans hl⟩⟩, hreq, hresp, rfl, rfl, rfl,
      fun n v c h => hcallbacks n v c h, rfl⟩

end MasterState

end IoTDrive.Master
