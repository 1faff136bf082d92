import IoTDrive.System.Network

/-! Requests that are answered. On a network that delivers every datagram, with minions
that answer what they execute, a request is replied as soon as its command has run
and its datagrams are answered, if it is admissible, its sends succeed and none of
them replaces a callback that still waits. The other requests may hang: a rejected or
empty request, one of whose sends throws, or one that names a minion twice before the
first answer, keeps its entries and is never replied. -/

namespace IoTDrive.System

open Lib Message Minion Stripe Master

/-! ### The network delivers -/

/-- Every datagram arrives once and is answered, and the UIDs of requests differ. The
sends may fail, and the files may do what they like. -/
def Delivering (s : Sys) : Action → Prop
  | .getTaskArgs _ uid => ∀ job ∈ s.master.jobs, job.uid ≠ uid
  | .execute i stack heap =>
    ((s.toMinion[i]?).bind fun p => serve stack heap (s.files p.minion) p.bytes).all
      (fun r => r.2.isSome) = true
  | .loseRequest _ => False
  | .loseAnswer _ => False
  | .injectRequest _ _ => False
  | .injectAnswer _ _ => False
  | _ => True

/-- The request is admissible, its sends succeed and none replaces a waiting callback. -/
def Unharmed (M : MinionManager) (s : Sys) : Action → Prop
  | .getTaskArgs req _ => Admissible M req
  | .advance j sendOk _ => sendOk = true ∧ FreeSlot s.master j
  | _ => True

instance (s : Sys) (a : Action) : Decidable (Delivering s a) :=
  match a with
  | .getTaskArgs _ uid => inferInstanceAs (Decidable (∀ job ∈ s.master.jobs, job.uid ≠ uid))
  | .execute i stack heap => inferInstanceAs (Decidable
      (((s.toMinion[i]?).bind fun p => serve stack heap (s.files p.minion) p.bytes).all
        (fun r => r.2.isSome) = true))
  | .loseRequest _ | .loseAnswer _ | .injectRequest _ _ | .injectAnswer _ _ =>
    inferInstanceAs (Decidable False)
  | .advance .. | .answer .. | .disk .. | .restart .. => inferInstanceAs (Decidable True)

instance (M : MinionManager) (s : Sys) (a : Action) : Decidable (Unharmed M s a) :=
  match a with
  | .getTaskArgs req _ => inferInstanceAs (Decidable (Admissible M req))
  | .advance j sendOk _ => inferInstanceAs (Decidable (sendOk = true ∧ FreeSlot s.master j))
  | .execute .. | .answer .. | .loseRequest .. | .loseAnswer .. | .injectRequest ..
  | .injectAnswer .. | .disk .. | .restart .. => inferInstanceAs (Decidable True)

/-- The command of the request has run and none of its datagrams is in flight. -/
def Quiescent (s : Sys) (j : ℕ) (job : Job) : Prop :=
  job.commandDone = true ∧ ∀ p ∈ s.toMinion ++ s.toMaster, ∀ i, p.origin ≠ some (j, i)

/-- A reply with the handle of the request has been written, and its entries are gone. -/
structure Replied (s : MasterState) (j : ℕ) (job : Job) : Prop where
  written : ∃ order, s.Stream order ∧ j ∈ order
  framed : job.Framed
  response : s.responses job.uid = none
  request : s.requests job.uid = false
  ticket : s.tickets job.uid = none

/-! ### Sends and their answers -/

variable {M : MinionManager} {s s' : Sys}

/-- The answer of the send is in its slot, or no longer needed. -/
def Heard (job : Job) (o : SendOp) : Prop := job.completed = true ∨ SlotDone job o

structure Prompt (s : Sys) : Prop where
  unresolved : ∀ (j : ℕ) (job : Job) (t : Ticket), s.master.jobs[j]? = some job →
    job.ticket = some t → t.completed = false →
      t.segments.all (SegmentState.isSegmentResolved t.op) = false
  answered : ∀ (j i : ℕ) (job : Job) (o : SendOp), s.master.jobs[j]? = some job → i < job.sent →
    job.ops[i]? = some o → InFlight s j i ∨ Heard job o

/-- No command has been ended by an exception. -/
def Running (s : Sys) : Prop :=
  ∀ (j : ℕ) (job : Job), s.master.jobs[j]? = some job → job.phase ≠ .aborted

/-- A step of a request keeps the answers in its ticket. -/
theorem advance_heard {m m' : MasterState} {j : ℕ} {job job' : Job} {ok : Bool}
    {pk : Option Packet} (h : MasterState.Advances M m j job ok job' m' pk) (hs : job.Sound)
    {o : SendOp} (ho : Heard job o) : Heard job' o := by
  cases h with
  | onNewTask _ _ => exact ho
  | reject _ _ _ _ => exact ho
  | create _ hq t ops _ =>
    -- there is no ticket yet
    have hnone := hs.early (.inr hq)
    rcases ho with hc | ⟨t₁, g, ht, -⟩
    · simp [Job.completed, hnone] at hc
    · simp [hnone] at ht
  | announce _ _ =>
    rcases ho with hc | ⟨t, g, ht, hg, hd⟩
    · left
      simpa [Job.completed, Option.any_map, Function.comp_def,
        Ticket.registerToResultDispatcher] using hc
    · exact .inr ⟨t.registerToResultDispatcher, g, by simp [ht], hg, hd⟩
  | send _ _ _ _ _ _ _ => exact ho
  | sendFails _ _ _ => exact ho

/-- An answer keeps the answers in its ticket. -/
theorem delivers_heard {i k n : ℕ} {q : Packet} {job : Job} {o o' : SendOp} {reply : AMessage}
    {t : Ticket} (h : Delivers s s' i q k n job o reply t) (ho : Heard job o') :
    Heard h.after o' := by
  rcases ho with hc | ⟨t₁, g, ht, hg, hd⟩
  · have hc' : t.completed = true := by simpa [Job.completed, h.ticket] using hc
    exact .inl (by simpa [Job.completed] using Ticket.onMirrorResponse_monotone hc')
  · obtain rfl := Option.some.inj (h.ticket.symm.trans ht)
    obtain ⟨g', hg', hd'⟩ := Ticket.onMirrorResponse_done (i := o.segIdx) (r := o.role)
      (m := some reply) o'.role hg hd
    exact .inr ⟨_, g', rfl, hg', hd'⟩

/-- The slot of the send has its answer. -/
theorem delivers_own (hs : Net M s) {i k n : ℕ} {q : Packet} {job : Job} {o : SendOp}
    {reply : AMessage} {t : Ticket} (h : Delivers s s' i q k n job o reply t) :
    Heard h.after o := by
  cases hc : t.completed with
  | true => exact .inl (by simpa [Job.completed] using Ticket.onMirrorResponse_monotone hc)
  | false =>
    have hplan := hs.planned k job h.tracked.job_eq
    obtain ⟨seg, hseg, -, -⟩ := hplan.segment h.tracked.op_eq
    have hlt : o.segIdx < t.segments.length := by
      have hlen := congrArg List.length (hplan.shape t h.ticket)
      simp only [List.length_map] at hlen
      rw [hlen]
      exact (List.getElem?_eq_some_iff.mp hseg).1
    refine .inr ⟨_, t.segments[o.segIdx].record o.role (some reply), rfl, ?_, ?_⟩
    · rw [Ticket.onMirrorResponse_segments hc hlt,
        Ticket.getElem?_store (List.getElem?_eq_getElem hlt), if_pos rfl]
    · rw [SegmentState.record_done, if_pos rfl]

theorem Delivering.careful {a : Action} (h : Delivering s a) (h' : Unharmed M s a) :
    Careful M s a := by
  cases a with
  | getTaskArgs req uid => exact ⟨h', fun job hj he => absurd he (h job hj)⟩
  | advance j sendOk beyond => exact h'.2
  | injectRequest m d => exact h
  | injectAnswer m d => exact h
  | _ => trivial

/-- No datagram is lost or comes from elsewhere, and an executed one is answered. -/
def Answers (s : Sys) : Action → Prop
  | .execute i stack heap =>
    ((s.toMinion[i]?).bind fun p => serve stack heap (s.files p.minion) p.bytes).all
      (fun r => r.2.isSome) = true
  | .loseRequest _ => False
  | .loseAnswer _ => False
  | .injectRequest _ _ => False
  | .injectAnswer _ _ => False
  | _ => True

theorem Delivering.answers {a : Action} (h : Delivering s a) : Answers s a := by
  cases a <;> first | exact h | trivial

/-! ### The invariant -/

theorem init_prompt (M : MinionManager) : Prompt (Sys.init M) :=
  ⟨by simp [Sys.init, MasterState.init], by simp [Sys.init, MasterState.init]⟩

theorem init_running (M : MinionManager) : Running (Sys.init M) := by
  simp [Running, Sys.init, MasterState.init]

theorem getTaskArgs_prompt (hs : Prompt s) {req : Request} {uid : UID} :
    Prompt { s with master := s.master.getTaskArgs req uid } := by
  refine ⟨fun j job t hj ht hc => ?_, fun j i job o hj hi ho => ?_⟩
  · rcases MasterState.jobs_getTaskArgs.mp hj with hj | ⟨-, rfl⟩
    · exact hs.unresolved j job t hj ht hc
    · cases ht
  · rcases MasterState.jobs_getTaskArgs.mp hj with hj | ⟨-, rfl⟩
    · exact hs.answered j i job o hj hi ho
    · cases ho

theorem advance_prompt (hs : Prompt s) (hn : Net M s) {j : ℕ} {ok : Bool} {master : MasterState}
    {pk : Option Packet} {job job' : Job} (hj : s.master.jobs[j]? = some job)
    (h : MasterState.Advances M s.master j job ok job' master pk) :
    Prompt { s with master := master, toMinion := s.toMinion ++ pk.toList } := by
  have hsound := hn.master.sound j job hj
  have hplan := hn.planned j job hj
  obtain ⟨-, hpos, -⟩ := hn.admissible j job hj
  obtain ⟨hjobs, -, -, -⟩ := h.frame
  have hget : ∀ k, master.jobs[k]? = if k = j then some job' else s.master.jobs[k]? := fun k => by
    rw [hjobs]
    exact MasterState.jobs_setJob hj job' k
  have hflight : ∀ {k i : ℕ}, InFlight s k i →
      InFlight { s with master := master, toMinion := s.toMinion ++ pk.toList } k i := by
    rintro k i ⟨p, hp, ho⟩
    refine ⟨p, ?_, ho⟩
    simp only [List.mem_append] at hp ⊢
    tauto
  refine ⟨fun k job₁ t hk ht hc => ?_, fun k i job₁ o hk hi ho => ?_⟩
  · rw [hget] at hk
    split_ifs at hk with he
    · obtain rfl := Option.some.inj hk
      cases h with
      | create _ hq t₁ ops hadd =>
        obtain ⟨-, rfl, -⟩ := addTask_ok hadd
        obtain rfl := Option.some.inj ht
        exact Ticket.create_unresolved _ _ _ (MinionManager.segments_ne_nil hpos)
      | announce _ _ =>
        obtain ⟨t₁, ht₁, rfl⟩ := Option.map_eq_some_iff.mp ht
        exact hs.unresolved j job t₁ hj ht₁ hc
      | _ => exact hs.unresolved j job t hj ht hc
    · exact hs.unresolved k job₁ t hk ht hc
  · rw [hget] at hk
    split_ifs at hk with he
    · obtain rfl := Option.some.inj hk
      subst he
      rcases Nat.lt_or_ge i job.sent with hlt | hge
      · rw [advance_ops h hsound hplan (by omega)] at ho
        rcases hs.answered k i job o hj hlt ho with hf | hh
        · exact .inl (hflight hf)
        · exact .inr (advance_heard h hsound hh)
      · -- the send of this step
        left
        cases h with
        | send hp o₁ d beyond ho₁ hm hd =>
          have hi' : i = job.sent := by simp at hi; omega
          exact ⟨⟨o₁.minion, some (k, job.sent), d⟩, by simp, by rw [hi']⟩
        | _ => simp at hi; omega
    · rcases hs.answered k i job₁ o hk hi ho with hf | hh
      · exact .inl (hflight hf)
      · exact .inr hh

/-- An executed datagram leaves an answer with its origin. -/
theorem execute_prompt (hs : Prompt s) {i : ℕ} {stack heap : ℕ → UInt8} {p : Packet}
    {f : FileManager} {d : List UInt8} (h : Executes s s' i stack heap p f (some d)) :
    Prompt s' := by
  refine ⟨h.master ▸ hs.unresolved, fun j k job o hj hk ho => ?_⟩
  rw [h.master] at hj
  rcases hs.answered j k job o hj hk ho with ⟨q, hq, horig⟩ | hh
  · left
    rw [InFlight, h.toMinion, h.toMaster]
    rcases List.mem_append.mp hq with hq | hq
    · by_cases hqp : q ∈ s.toMinion.eraseIdx i
      · exact ⟨q, by simp [hqp], horig⟩
      · -- it is the datagram that was executed
        obtain rfl : q = p := by
          obtain ⟨n, hn⟩ := List.mem_iff_getElem?.mp hq
          by_cases hni : n = i
          · subst hni
            exact Option.some.inj (hn.symm.trans h.packet)
          · exact absurd (List.mem_eraseIdx_iff_getElem?.mpr ⟨n, hni, hn⟩) hqp
        exact ⟨⟨q.minion, q.origin, d⟩, by simp, horig⟩
    · exact ⟨q, by simp [hq], horig⟩
  · exact .inr hh

theorem answer_prompt (hs : Prompt s) (hn : Net M s) {i k n : ℕ} {q : Packet} {job : Job}
    {o : SendOp} {reply : AMessage} {t : Ticket} (h : Delivers s s' i q k n job o reply t) :
    Prompt s' := by
  have hj := h.tracked.job_eq
  refine ⟨fun l job₁ t₁ hl ht hc => ?_, fun l m job₁ o₁ hl hm ho => ?_⟩
  · rw [h.getElem?] at hl
    split_ifs at hl with he
    · obtain rfl := Option.some.inj hl
      obtain rfl := Option.some.inj ht
      have hpend : t.completed = false := by
        by_contra hne
        rw [Ticket.onMirrorResponse_monotone (by simpa using hne)] at hc
        cases hc
      exact Ticket.onMirrorResponse_unresolved (hs.unresolved k job t hj h.ticket hpend) hc
    · exact hs.unresolved l job₁ t₁ hl ht hc
  · -- a datagram other than the answer is still in flight
    have hflight : ∀ {l m : ℕ}, (l, m) ≠ (k, n) → InFlight s l m → InFlight s' l m := by
      rintro l m hne ⟨p, hp, horig⟩
      refine ⟨p, ?_, horig⟩
      rw [h.toMinion, h.toMaster]
      rcases List.mem_append.mp hp with hp | hp
      · exact List.mem_append_left _ hp
      · obtain ⟨x, hx⟩ := List.mem_iff_getElem?.mp hp
        have hxi : x ≠ i := by
          rintro rfl
          rw [Option.some.inj (hx.symm.trans h.packet), h.tracked.origin] at horig
          exact hne (Option.some.inj horig).symm
        exact List.mem_append_right _ (List.mem_eraseIdx_iff_getElem?.mpr ⟨x, hxi, hx⟩)
    rw [h.getElem?] at hl
    split_ifs at hl with he
    · obtain rfl := Option.some.inj hl
      subst he
      by_cases hmn : m = n
      · subst hmn
        obtain rfl : o = o₁ := Option.some.inj (h.tracked.op_eq.symm.trans ho)
        exact .inr (delivers_own hn h)
      · rcases hs.answered l m job o₁ hj hm ho with hf | hh
        · exact .inl (hflight (by simp [hmn]) hf)
        · exact .inr (delivers_heard h hh)
    · rcases hs.answered l m job₁ o₁ hl hm ho with hf | hh
      · exact .inl (hflight (by simp [he]) hf)
      · exact .inr hh

theorem step_prompt {a : Action} (hd : Answers s a) (h : Sys.step M s a = some s') (hn : Net M s)
    (hs : Prompt s) : Prompt s' := by
  cases a with
  | getTaskArgs req uid =>
    obtain rfl := Option.some.inj h
    exact getTaskArgs_prompt hs
  | advance j sendOk beyond =>
    obtain ⟨⟨master, pk⟩, hr, rfl⟩ := Option.map_eq_some_iff.mp h
    obtain ⟨job, job', hj, hcases⟩ := MasterState.advance_cases hr
    exact advance_prompt hs hn hj hcases
  | execute i stack heap =>
    obtain ⟨p, f, a, he⟩ := execute_cases h
    cases a with
    | none => simp [Answers, he.packet, he.served] at hd
    | some d => exact execute_prompt hs he
  | answer i stack =>
    obtain ⟨q, k, n, job, o, reply, t, hdel⟩ := answer_cases hn h
    exact answer_prompt hs hn hdel
  | loseRequest i => exact hd.elim
  | loseAnswer i => exact hd.elim
  | injectRequest m d => exact hd.elim
  | injectAnswer m d => exact hd.elim
  | disk m f =>
    obtain rfl := Option.some.inj h
    exact ⟨hs.unresolved, hs.answered⟩
  | restart m =>
    obtain rfl := Option.some.inj h
    exact ⟨hs.unresolved, hs.answered⟩

/-- Where the sends succeed, no exception ends a command of an admissible request. -/
theorem step_running {a : Action} (hok : Unharmed M s a) (h : Sys.step M s a = some s')
    (hn : Net M s) (hs : Running s) : Running s' := by
  intro j job hj
  cases a with
  | getTaskArgs req uid =>
    obtain rfl := Option.some.inj h
    rcases MasterState.jobs_getTaskArgs.mp hj with hj | ⟨-, rfl⟩
    · exact hs j job hj
    · simp
  | advance k sendOk beyond =>
    obtain ⟨⟨master, pk⟩, hr, rfl⟩ := Option.map_eq_some_iff.mp h
    obtain ⟨job₁, job₂, hk, hcases⟩ := MasterState.advance_cases hr
    rw [(hcases.quiet hk hn.master).getElem? hk] at hj
    split_ifs at hj with he
    · obtain rfl := Option.some.inj hj
      rw [hok.1] at hcases
      cases hcases with
      | reject _ _ e he => simp [addTask_inRange (hn.admissible k job₁ hk).1] at he
      | send hp _ _ _ _ _ _ => simp [hp]
      | _ => simp
    · exact hs j job hj
  | answer i stack =>
    obtain ⟨q, k, n, job₁, o, reply, t, hd⟩ := answer_cases hn h
    rw [hd.getElem?] at hj
    split_ifs at hj with he
    · exact Option.some.inj hj ▸ hs k job₁ hd.tracked.job_eq
    · exact hs j job hj
  | execute i stack heap =>
    obtain ⟨p, f, a, he⟩ := execute_cases h
    rw [he.master] at hj
    exact hs j job hj
  | _ =>
    obtain rfl := Option.some.inj h
    exact hs j job hj

/-! ### Quiescent requests -/

/-- A request all of whose sends are heard has completed. -/
theorem completed_of_heard (hs : Prompt s) {j : ℕ} {job : Job} (hj : s.master.jobs[j]? = some job)
    (hplan : Planned M job) {t : Ticket} (ht : job.ticket = some t)
    (hh : ∀ o ∈ job.ops, Heard job o) : job.completed = true := by
  by_contra hc
  have hpend : t.completed = false := by simpa [Job.completed, ht] using hc
  have hdone : ∀ g ∈ t.segments, ∀ r, g.done r = true := by
    intro g hg r
    obtain ⟨x, hx⟩ := List.mem_iff_getElem?.mp hg
    have hlt : x < (job.segments M).length := by
      have hlen := congrArg List.length (hplan.shape t ht)
      simp only [List.length_map] at hlen
      rw [← hlen]
      exact (List.getElem?_eq_some_iff.mp hx).1
    obtain ⟨i, o, ho, rfl, rfl, -⟩ := hplan.send (by simp [ht]) (List.getElem?_eq_getElem hlt) r
    rcases hh o (List.mem_of_getElem? ho) with hcomp | ⟨t₁, g₁, ht₁, hg₁, hd⟩
    · exact absurd hcomp hc
    · obtain rfl := Option.some.inj (ht.symm.trans ht₁)
      obtain rfl := Option.some.inj (hx.symm.trans hg₁)
      exact hd
  have hall : t.segments.all (SegmentState.isSegmentResolved t.op) = true := by
    rw [List.all_eq_true]
    intro g hg
    have hp := hdone g hg .primary
    have hb := hdone g hg .backup
    simp only [SegmentState.done] at hp hb
    cases t.op <;> simp [SegmentState.isSegmentResolved, hp, hb]
  rw [hs.unresolved j job t hj ht hpend] at hall
  cases hall

theorem quiescent_completed (hs : Prompt s) (hn : Net M s) {j : ℕ} {job : Job}
    (hj : s.master.jobs[j]? = some job) (hrun : job.phase ≠ .aborted)
    (hq : Quiescent s j job) : job.completed = true := by
  have hphase : job.phase = .sending ∧ job.sent = job.ops.length := by
    have hdone := hq.1
    simp only [Job.commandDone, Bool.or_eq_true, Bool.and_eq_true, beq_iff_eq] at hdone
    exact hdone.resolve_left hrun
  obtain ⟨t, ht, -⟩ := (hn.master.sound j job hj).sending hphase.1
  refine completed_of_heard hs hj (hn.planned j job hj) ht fun o ho => ?_
  obtain ⟨i, hi⟩ := List.mem_iff_getElem?.mp ho
  have hlt : i < job.sent := by
    rw [hphase.2]
    exact (List.getElem?_eq_some_iff.mp hi).1
  rcases hs.answered j i job o hj hlt hi with ⟨p, hp, horig⟩ | hh
  · exact absurd horig (hq.2 p hp i)
  · exact hh

/-- The entries of a completed request are gone if no other request has its UID. -/
theorem replied_of_completed {m : MasterState} (hs : m.Inv) {j : ℕ} {job : Job}
    (hj : m.jobs[j]? = some job) (hc : job.completed = true)
    (hu : ∀ (k : ℕ) (job' : Job), m.jobs[k]? = some job' → job'.uid = job.uid → k = j) :
    Replied m j job := by
  have hnone : ¬ (m.responses job.uid ≠ none ∨ m.requests job.uid = true ∨
      m.tickets job.uid ≠ none) := by
    intro h
    obtain ⟨k, job', hk, hpend, huid⟩ := hs.owned job.uid h
    obtain rfl := hu k job' hk huid
    rw [Option.some.inj (hj.symm.trans hk), hpend] at hc
    cases hc
  simp only [not_or, not_not, Bool.not_eq_true] at hnone
  obtain ⟨order, ho⟩ := hs.stream
  exact ⟨⟨order, ho, (ho.2.1 j).mpr ⟨job, hj, hc⟩⟩, (hs.sound j job hj).framed hc, hnone.1,
    hnone.2.1, hnone.2.2⟩

/-- The UIDs of all requests differ. -/
def UidsDistinct (s : Sys) : Prop := (s.master.history.map Prod.fst).Nodup

theorem init_uidsDistinct (M : MinionManager) : UidsDistinct (Sys.init M) := by
  simp [UidsDistinct, Sys.init, MasterState.init, MasterState.history]

theorem UidsDistinct.eq (h : UidsDistinct s) {j k : ℕ} {job job' : Job}
    (hj : s.master.jobs[j]? = some job) (hk : s.master.jobs[k]? = some job')
    (hu : job'.uid = job.uid) : k = j := by
  have huid : s.master.history.map Prod.fst = s.master.jobs.map Job.uid := by
    simp [MasterState.history, Function.comp_def]
  rw [UidsDistinct, huid] at h
  refine (List.getElem?_inj (by simpa using (List.getElem?_eq_some_iff.mp hk).1) h).mp ?_
  simp [hj, hk, hu]

theorem step_uidsDistinct {a : Action} (h : Sys.step M s a = some s')
    (hg : ∀ p ∈ Sys.newRequest a, ∀ job ∈ s.master.jobs, job.uid ≠ p.1) (hs : UidsDistinct s) :
    UidsDistinct s' := by
  rw [UidsDistinct, Sys.step_history h, List.map_append]
  refine List.Nodup.append hs ?_ ?_
  · cases a <;> simp [Sys.newRequest]
  · intro u hu hu'
    obtain ⟨⟨v, req⟩, hv, rfl⟩ := List.mem_map.mp hu'
    obtain ⟨q, hq, he⟩ := List.mem_map.mp hu
    obtain ⟨job, hjob, rfl⟩ := List.mem_map.mp hq
    exact hg _ hv job hjob he

theorem Delivering.fresh {a : Action} (h : Delivering s a) :
    ∀ p ∈ Sys.newRequest a, ∀ job ∈ s.master.jobs, job.uid ≠ p.1 := by
  cases a with
  | getTaskArgs req uid => simpa [Sys.newRequest, Delivering] using h
  | _ => simp [Sys.newRequest]

/-- In every execution on a delivering network whose requests are admissible, whose sends
succeed and whose sends replace no waiting callback: a request whose command has run
and whose datagrams are answered has been replied, and its entries are gone. -/
theorem quiescent_replied (M : MinionManager) (as : List Action) (s : Sys)
    (h : run (Sys.step M) (fun s a => Delivering s a ∧ Unharmed M s a) as (Sys.init M) = some s) :
    ∀ (j : ℕ) (job : Job), s.master.jobs[j]? = some job → Quiescent s j job →
      Replied s.master j job := by
  have hinv : Net M s ∧ Prompt s ∧ Running s ∧ UidsDistinct s := by
    refine run_invariant (P := fun s => Net M s ∧ Prompt s ∧ Running s ∧ UidsDistinct s) ?_ h
      ⟨init_net M, init_prompt M, init_running M, init_uidsDistinct M⟩
    rintro s a s' ⟨hd, hu⟩ hst ⟨hn, hp, hr, hq⟩
    exact ⟨step_net (hd.careful hu) hst hn, step_prompt hd.answers hst hn hp,
      step_running hu hst hn hr, step_uidsDistinct hst hd.fresh hq⟩
  obtain ⟨hn, hp, hr, hq⟩ := hinv
  intro j job hj hquiet
  exact replied_of_completed hn.master hj (quiescent_completed hp hn hj (hr j job hj) hquiet)
    fun k job' hk hu => hq.eq hj hk hu

/-- A write inside the first chunk of the small drive: five steps of the request, two
executions, two answers. -/
def onePageWrite : List Action :=
  [.getTaskArgs MasterState.twoByteWrite 1] ++
    List.replicate 5 (.advance 0 true fun _ => 0) ++
    [.execute 1 (fun _ => 0) (fun _ => 0), .execute 0 (fun _ => 0) (fun _ => 0),
      .answer 1 fun _ => 0, .answer 0 fun _ => 0]

theorem quiescent_replied_write :
    ∃ s job, run (Sys.step MinionManager.smallDrive)
        (fun s a => Delivering s a ∧ Unharmed MinionManager.smallDrive s a) onePageWrite
        (Sys.init MinionManager.smallDrive) = some s ∧
      s.master.jobs[0]? = some job ∧ Quiescent s 0 job ∧ Replied s.master 0 job := by
  have hrun : (run (Sys.step MinionManager.smallDrive)
      (fun s a => Delivering s a ∧ Unharmed MinionManager.smallDrive s a) onePageWrite
      (Sys.init MinionManager.smallDrive)).map (fun s =>
        (s.master.jobs.map Job.commandDone, s.toMinion ++ s.toMaster)) = some ([true], []) := by
    decide +kernel
  obtain ⟨s, hs, he⟩ := Option.map_eq_some_iff.mp hrun
  obtain ⟨hjobs, hnet⟩ := Prod.mk.injEq .. |>.mp he
  obtain ⟨job, hlist, hdone⟩ := List.map_eq_singleton_iff.mp hjobs
  have hj : s.master.jobs[0]? = some job := by simp [hlist]
  have hq : Quiescent s 0 job := ⟨hdone, by simp [hnet]⟩
  exact ⟨s, job, hs, hj, hq, quiescent_replied MinionManager.smallDrive onePageWrite s hs 0 job
    hj hq⟩

/-- A read of no bytes: its ticket has no segment, so no answer ever completes it. -/
def emptyRead : List Action :=
  .getTaskArgs (.smallRead 7 0 0) 1 ::
    List.replicate 3 (.advance 0 true fun _ => 0)

theorem empty_read_hangs :
    ∃ s job, run (Sys.step MinionManager.smallDrive) Delivering emptyRead
        (Sys.init MinionManager.smallDrive) = some s ∧
      s.master.jobs[0]? = some job ∧ Quiescent s 0 job ∧ ¬ Replied s.master 0 job := by
  have hrun : (run (Sys.step MinionManager.smallDrive) Delivering emptyRead
      (Sys.init MinionManager.smallDrive)).map (fun s =>
        (s.master.jobs.map (fun job => (job.commandDone, job.uid)), s.toMinion ++ s.toMaster,
          (s.master.responses 1).isSome)) = some ([(true, 1)], [], true) := by
    decide +kernel
  obtain ⟨s, hs, he⟩ := Option.map_eq_some_iff.mp hrun
  simp only [Prod.mk.injEq] at he
  obtain ⟨hjobs, hnet, hresp⟩ := he
  obtain ⟨job, hlist, hjob⟩ := List.map_eq_singleton_iff.mp hjobs
  obtain ⟨hdone, huid⟩ := Prod.mk.injEq .. |>.mp hjob
  refine ⟨s, job, hs, by simp [hlist], ⟨hdone, by simp [hnet]⟩, fun hr => ?_⟩
  rw [← huid, hr.response] at hresp
  cases hresp

end IoTDrive.System
