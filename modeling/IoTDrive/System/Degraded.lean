import IoTDrive.Lib.Delay
import IoTDrive.System.Freshness

/-! The drive with some minions cut off: any datagram to or from them may be lost, and no others.
Every request lies inside one chunk. A read is replied by the other mirror of its chunk; a
write that needs a lost answer waits for ever, since nothing is sent again. A lost
datagram is taken for one that is still on its way, so that the drive is at every moment
one that only delays. -/

namespace IoTDrive.System

open Lib Message Minion Stripe Master Drive

/-- Requests inside one chunk each, short enough and with distinct UIDs, at any time; the sends
succeed, and only datagrams to or from dead minions are lost. -/
def Degraded (M : MinionManager) (dead : ℕ → Bool) (s : Sys) : Action → Prop
  | .getTaskArgs req uid => Carried M req ∧ M.OneChunk req.offset.toNat req.length.toNat ∧
      ∀ job ∈ s.master.jobs, job.uid ≠ uid
  | .advance _ sendOk _ => sendOk = true
  | .loseRequest i => ∀ p ∈ s.toMinion[i]?, dead p.minion = true
  | .loseAnswer i => ∀ p ∈ s.toMaster[i]?, dead p.minion = true
  | .injectRequest _ _ => False
  | .injectAnswer _ _ => False
  | .disk _ _ => False
  | .restart _ => False
  | _ => True

instance (M : MinionManager) (dead : ℕ → Bool) (s : Sys) (a : Action) :
    Decidable (Degraded M dead s a) :=
  match a with
  | .getTaskArgs req uid => inferInstanceAs (Decidable (Carried M req ∧
      M.OneChunk req.offset.toNat req.length.toNat ∧ ∀ job ∈ s.master.jobs, job.uid ≠ uid))
  | .advance _ sendOk _ => inferInstanceAs (Decidable (sendOk = true))
  | .loseRequest i => inferInstanceAs (Decidable (∀ p ∈ s.toMinion[i]?, dead p.minion = true))
  | .loseAnswer i => inferInstanceAs (Decidable (∀ p ∈ s.toMaster[i]?, dead p.minion = true))
  | .execute .. | .answer .. => inferInstanceAs (Decidable True)
  | .injectRequest .. | .injectAnswer .. | .disk .. | .restart .. =>
    inferInstanceAs (Decidable False)

variable {M : MinionManager} {dead : ℕ → Bool} {s s' z : Sys} {a : Action}

theorem Degraded.lossy (h : Degraded M dead s a) : Lossy M s a := by
  cases a with
  | getTaskArgs req uid => exact ⟨h.1.admissible, h.2.1, h.2.2⟩
  | injectRequest m d => exact h
  | injectAnswer m d => exact h
  | disk m f => exact h
  | restart m => exact h
  | _ => trivial

/-! ### Losing and delaying -/

/-- A drive that differs in the lost datagrams only, which are still on their way there. -/
structure Slower (dead : ℕ → Bool) (z s : Sys) : Prop where
  master : z.master = s.master
  files : z.files = s.files
  requests : Delays (fun p => dead p.minion = true) z.toMinion s.toMinion
  answers : Delays (fun p => dead p.minion = true) z.toMaster s.toMaster

theorem Slower.execute (h : Slower dead z s) {i : ℕ} {stack heap : ℕ → UInt8}
    (hst : s.execute i stack heap = some s') :
    ∃ k z', z.execute k stack heap = some z' ∧ Slower dead z' s' ∧
      z.toMinion[k]? = s.toMinion[i]? := by
  obtain ⟨p, f, b, he⟩ := execute_cases hst
  obtain ⟨k, hk, hrest⟩ := h.requests.take he.packet
  have hserved : serve stack heap (z.files p.minion) p.bytes = some (f, b) := by
    rw [h.files]
    exact he.served
  refine ⟨k, { z with
      toMinion := z.toMinion.eraseIdx k
      toMaster := z.toMaster ++ (b.map fun d => ⟨p.minion, p.origin, d⟩).toList
      files := Function.update z.files p.minion f
      executed := z.executed ++ Sys.taskOf stack p }, ?_, ⟨?_, ?_, ?_, ?_⟩, hk.trans he.packet.symm⟩
  · simp [Sys.execute, hk, hserved]
  · exact h.master.trans he.master.symm
  · rw [he.files, ← h.files]
  · rw [he.toMinion]
    exact hrest
  · rw [he.toMaster]
    exact h.answers.append _

theorem Slower.answer (h : Slower dead z s) {i : ℕ} {stack : ℕ → UInt8}
    (hst : s.answer i stack = some s') :
    ∃ k z', z.answer k stack = some z' ∧ Slower dead z' s' := by
  simp only [Sys.answer, Option.bind_eq_bind, Option.bind_eq_some_iff, Option.pure_def,
    Option.some.injEq] at hst
  obtain ⟨q, hq, master, hm, rfl⟩ := hst
  obtain ⟨k, hk, hrest⟩ := h.answers.take hq
  refine ⟨k, { z with master := master, toMaster := z.toMaster.eraseIdx k }, ?_,
    rfl, h.files, h.requests, hrest⟩
  simp [Sys.answer, hk, h.master, hm]

/-- A step of the drive that loses is one of the drive that delays, or nothing happens there. -/
theorem Slower.step (h : Slower dead z s) (hg : Degraded M dead s a) (hcare : Careful M s a)
    (hans : ∀ i stack heap, a = .execute i stack heap → Answers s a)
    (hst : Sys.step M s a = some s') :
    ∃ z', Slower dead z' s' ∧
      (z' = z ∨ ∃ b, Careful M z b ∧ Answers z b ∧ Sys.step M z b = some z') := by
  cases a with
  | getTaskArgs req uid =>
    obtain rfl := Option.some.inj hst
    refine ⟨{ z with master := z.master.getTaskArgs req uid },
      ⟨by rw [h.master], h.files, h.requests, h.answers⟩,
      .inr ⟨.getTaskArgs req uid, ?_, trivial, rfl⟩⟩
    rw [Careful, h.master]
    exact hcare
  | advance j sendOk beyond =>
    obtain ⟨⟨master, pk⟩, hr, rfl⟩ := Option.map_eq_some_iff.mp hst
    refine ⟨{ z with master := master, toMinion := z.toMinion ++ pk.toList },
      ⟨rfl, h.files, h.requests.append _, h.answers⟩,
      .inr ⟨.advance j sendOk beyond, ?_, trivial, ?_⟩⟩
    · rw [Careful, h.master]
      exact hcare
    · simp [Sys.step, h.master, hr]
  | execute i stack heap =>
    obtain ⟨k, z', hz, hslow, hk⟩ := h.execute hst
    refine ⟨z', hslow, .inr ⟨.execute k stack heap, trivial, ?_, hz⟩⟩
    rw [Answers, hk, h.files]
    exact hans i stack heap rfl
  | answer i stack =>
    obtain ⟨k, z', hz, hslow⟩ := h.answer hst
    exact ⟨z', hslow, .inr ⟨.answer k stack, trivial, trivial, hz⟩⟩
  | loseRequest i =>
    obtain rfl := Option.some.inj hst
    exact ⟨z, ⟨h.master, h.files, h.requests.lose hg, h.answers⟩, .inl rfl⟩
  | loseAnswer i =>
    obtain rfl := Option.some.inj hst
    exact ⟨z, ⟨h.master, h.files, h.requests, h.answers.lose hg⟩, .inl rfl⟩
  | _ => exact hg.elim

/-! ### Successful answers -/

/-- Every answer on its way, and every one recorded in a ticket, is a success. -/
structure Succeeding (s : Sys) : Prop where
  arriving : ∀ q ∈ s.toMaster, ∀ stack reply,
    receive masterTypes stack q.bytes = .message reply → reply.getResult = true
  recorded : ∀ (j : ℕ) (job : Job) (t : Ticket) (x : ℕ) (g : SegmentState),
    s.master.jobs[j]? = some job → job.ticket = some t → t.segments[x]? = some g →
      ∀ r, g.done r = true → succeeded (g.msg r) = true

/-- Every request fits. -/
def AllCarried (M : MinionManager) (s : Sys) : Prop := ∀ req ∈ s.requests, Carried M req

section Execute
variable {i : ℕ} {stack heap : ℕ → UInt8} {p : Packet} {f : FileManager} {b : Option (List UInt8)}

/-- A minion with its file in order answers every request, with success. -/
theorem Executes.succeeds (he : Executes s s' i stack heap p f b) (hn : Net M s)
    (hcar : AllCarried M s) (hserves : (s.files p.minion).Serves M.mbMinion) :
    ∃ d, b = some d ∧ ∀ stack' reply, receive masterTypes stack' d = .message reply →
      reply.getResult = true := by
  obtain ⟨j, n, job, o, htr, hr⟩ := hn.requests p (List.mem_of_getElem? he.packet)
  obtain ⟨g, hg, -, hmsg⟩ := (hn.planned j job htr.job_eq).segment htr.op_eq
  have hmem := List.mem_of_getElem? hg
  have hjob : Carried M job.req := hcar _ (List.mem_of_getElem? (Sys.requests_eq_some htr.job_eq))
  cases hop : job.req.op with
  | read =>
    obtain ⟨-, -, d, hb, hdec⟩ := served_read hserves hjob hop hmem hmsg hr he.served
    refine ⟨d, hb, fun stack' reply hreply => ?_⟩
    obtain rfl := Receipt.message.inj ((hdec stack').symm.trans hreply)
    rfl
  | write =>
    obtain ⟨-, -, d, hb, hdec⟩ := served_write hserves hjob hop hmem hmsg hr he.served
    refine ⟨d, hb, fun stack' reply hreply => ?_⟩
    obtain rfl := Receipt.message.inj ((hdec stack').symm.trans hreply)
    rfl

end Execute

theorem step_allCarried (hg : Degraded M dead s a) (hst : Sys.step M s a = some s')
    (h : AllCarried M s) : AllCarried M s' := by
  intro req hreq
  rw [Sys.step_requests hst] at hreq
  rcases List.mem_append.mp hreq with hreq | hreq
  · exact h req hreq
  · cases a with
    | getTaskArgs req' uid =>
      obtain rfl : req = req' := by simpa [Sys.newRequest] using hreq
      exact hg.1
    | _ => simp [Sys.newRequest] at hreq

theorem execute_answers {i : ℕ} {stack heap : ℕ → UInt8}
    (hst : Sys.step M s (.execute i stack heap) = some s') (hn : Net M s) (hcar : AllCarried M s)
    (hserves : ∀ m, (s.files m).Serves M.mbMinion) : Answers s (.execute i stack heap) := by
  obtain ⟨p, f, b, he⟩ := execute_cases hst
  obtain ⟨d, rfl, -⟩ := he.succeeds hn hcar (hserves _)
  simp [Answers, he.packet, he.served]

theorem answer_succeeding {i k n : ℕ} {q : Packet} {job : Job} {o : SendOp} {reply : AMessage}
    {t : Ticket} (hd : Delivers s s' i q k n job o reply t) (h : Succeeding s) : Succeeding s' := by
  have hok : reply.getResult = true :=
    h.arriving q (List.mem_of_getElem? hd.packet) (fun _ => 0) reply (hd.decoded _)
  constructor
  case arriving =>
    intro q' hq'
    rw [hd.toMaster] at hq'
    exact h.arriving q' (List.mem_of_mem_eraseIdx hq')
  case recorded =>
    intro l job₁ t₁ x g hl ht hg r hdone
    rw [hd.getElem?] at hl
    split_ifs at hl with he
    · obtain rfl := Option.some.inj hl
      obtain rfl := Option.some.inj ht
      rcases Ticket.onMirrorResponse_msg hg hdone with ⟨-, -, hmsg⟩ | ⟨g₀, hg₀, hdone₀, hmsg⟩
      · rw [hmsg]
        exact hok
      · rw [hmsg]
        exact h.recorded k job t x g₀ hd.tracked.job_eq hd.ticket hg₀ r hdone₀
    · exact h.recorded l job₁ t₁ x g hl ht hg r hdone

theorem step_succeeding (hg : Degraded M dead s a) (hst : Sys.step M s a = some s') (hn : Net M s)
    (hcar : AllCarried M s) (hserves : ∀ m, (s.files m).Serves M.mbMinion) (h : Succeeding s) :
    Succeeding s' := by
  cases a with
  | getTaskArgs req uid =>
    obtain rfl := Option.some.inj hst
    refine ⟨h.arriving, fun j job t x g hj ht => ?_⟩
    rcases MasterState.jobs_getTaskArgs.mp hj with hj | ⟨-, rfl⟩
    · exact h.recorded j job t x g hj ht
    · cases ht
  | advance j sendOk beyond =>
    obtain ⟨⟨master, pk⟩, hr, rfl⟩ := Option.map_eq_some_iff.mp hst
    obtain ⟨job, job', hj, hadv⟩ := MasterState.advance_cases hr
    refine ⟨h.arriving, fun l job₁ t x g hl ht hseg r hdone => ?_⟩
    rw [(hadv.quiet hj hn.master).getElem? hj] at hl
    split_ifs at hl with he
    · obtain rfl := Option.some.inj hl
      obtain ⟨t₀, ht₀, hg₀⟩ := advance_ticket hadv ht hseg hdone
      exact h.recorded j job t₀ x g hj ht₀ hg₀ r hdone
    · exact h.recorded l job₁ t x g hl ht hseg r hdone
  | execute i stack heap =>
    obtain ⟨p, f, b, he⟩ := execute_cases hst
    obtain ⟨d, rfl, hdec⟩ := he.succeeds hn hcar (hserves _)
    refine ⟨fun q hq => ?_, he.master ▸ h.recorded⟩
    rw [he.toMaster] at hq
    rcases List.mem_append.mp hq with hq | hq
    · exact h.arriving q hq
    · obtain rfl := List.mem_singleton.mp hq
      exact hdec
  | answer i stack =>
    obtain ⟨q, k, n, job, o, reply, t, hd⟩ := answer_cases hn hst
    exact answer_succeeding hd h
  | loseRequest i =>
    obtain rfl := Option.some.inj hst
    exact ⟨h.arriving, h.recorded⟩
  | loseAnswer i =>
    obtain rfl := Option.some.inj hst
    exact ⟨fun q hq => h.arriving q (List.mem_of_mem_eraseIdx hq), h.recorded⟩
  | _ => exact hg.elim

/-! ### The invariant -/

structure Cut (M : MinionManager) (dead : ℕ → Bool) (s : Sys) : Prop where
  ordered : Ordered M s
  history : History .start M s
  carried : AllCarried M s
  running : Running s
  succeeding : Succeeding s
  slower : ∃ z, Slower dead z s ∧ Net M z ∧ Prompt z

theorem init_cut (M : MinionManager) (dead : ℕ → Bool) : Cut M dead (Sys.init M) where
  ordered := init_ordered M
  history := init_history M
  carried := by simp [AllCarried, Sys.requests, Sys.init, MasterState.init, MasterState.history]
  running := init_running M
  succeeding := ⟨by simp [Sys.init], by simp [Sys.init, MasterState.init]⟩
  slower := ⟨Sys.init M, ⟨rfl, rfl, .refl _, .refl _⟩, init_net M, init_prompt M⟩

theorem step_cut (hN : 2 ≤ M.numMinions) (hg : Degraded M dead s a)
    (hst : Sys.step M s a = some s') (h : Cut M dead s) : Cut M dead s' := by
  have hn := h.ordered.chunks.net
  have hcare := h.ordered.chunks.careful hN hg.lossy
  have hserves := h.history.serves
  constructor
  case ordered => exact step_ordered hN hg.lossy hst h.ordered
  case history => exact step_history hg.lossy hst h.ordered.chunks h.history
  case carried => exact step_allCarried hg hst h.carried
  case running =>
    refine step_running ?_ hst hn h.running
    cases a with
    | getTaskArgs req uid => exact hg.1.admissible
    | advance j sendOk beyond => exact ⟨hg, hcare⟩
    | _ => trivial
  case succeeding => exact step_succeeding hg hst hn h.carried hserves h.succeeding
  case slower =>
    obtain ⟨z, hslow, hnet, hprompt⟩ := h.slower
    have hans : ∀ i stack heap, a = .execute i stack heap → Answers s a := by
      rintro i stack heap rfl
      exact execute_answers hst hn h.carried hserves
    obtain ⟨z', hslow', rfl | ⟨b, hb, hb', hz⟩⟩ := hslow.step hg hcare hans hst
    · exact ⟨z', hslow', hnet, hprompt⟩
    · exact ⟨z', hslow', step_net hb hz hnet, step_prompt hb' hz hnet hprompt⟩

theorem run_cut {as : List Action} (hN : 2 ≤ M.numMinions)
    (h : run (Sys.step M) (Degraded M dead) as (Sys.init M) = some s) : Cut M dead s :=
  run_invariant (fun _ _ _ hg hst h => step_cut hN hg hst h) h (init_cut M dead)

/-! ### Requests without a datagram on its way -/

variable {j : ℕ} {job : Job}

/-- The answer of a send has come, unless its minion is cut off. -/
theorem Cut.heard (h : Cut M dead s) (hj : s.master.jobs[j]? = some job)
    (hq : Quiescent s j job) {i : ℕ} {o : SendOp} (ho : job.ops[i]? = some o)
    (hi : i < job.sent) : Heard job o ∨ dead o.minion = true := by
  obtain ⟨z, hslow, hnet, hprompt⟩ := h.slower
  have hjz : z.master.jobs[j]? = some job := by rw [hslow.master, hj]
  rcases hprompt.answered j i job o hjz hi ho with ⟨p, hp, horig⟩ | hheard
  · right
    have htracked : p.minion = o.minion := by
      have htr : ∃ l k job' o', Tracked z.master p l k job' o' := by
        rcases List.mem_append.mp hp with hp | hp
        · obtain ⟨l, k, job', o', htr, -⟩ := hnet.requests p hp
          exact ⟨l, k, job', o', htr⟩
        · obtain ⟨l, k, job', o', htr, -⟩ := hnet.answers p hp
          exact ⟨l, k, job', o', htr⟩
      obtain ⟨l, k, job', o', htr⟩ := htr
      obtain ⟨rfl, rfl⟩ := Prod.mk.inj (Option.some.inj (htr.origin.symm.trans horig))
      obtain rfl := Option.some.inj (htr.job_eq.symm.trans hjz)
      obtain rfl := Option.some.inj (htr.op_eq.symm.trans ho)
      exact htr.minion
    -- the datagram is in the slower drive only
    rw [← htracked]
    rcases List.mem_append.mp hp with hp | hp
    · exact (hslow.requests.mem hp).resolve_right fun hs =>
        hq.2 p (List.mem_append_left _ hs) i horig
    · exact (hslow.answers.mem hp).resolve_right fun hs =>
        hq.2 p (List.mem_append_right _ hs) i horig
  · exact .inl hheard

/-- A read needs one of its two minions, a write both. -/
def Spared (M : MinionManager) (dead : ℕ → Bool) (req : Request) : Prop :=
  match req.op with
  | .read => ∃ r, dead (M.minionOf r req.offset.toNat) = false
  | .write => ∀ r, dead (M.minionOf r req.offset.toNat) = false

/-- A read segment with a successful answer is resolved. -/
theorem read_resolved {g : SegmentState} (hok : ∀ r, g.done r = true → succeeded (g.msg r) = true)
    {r : MirrorRole} (hd : g.done r = true) : g.isSegmentResolved .read = true := by
  cases r with
  | primary =>
    have hp : g.primaryDone = true := hd
    have hs : succeeded g.primaryMsg = true := hok .primary hd
    simp [SegmentState.isSegmentResolved, hp, hs]
  | backup =>
    have hb : g.backupDone = true := hd
    simp [SegmentState.isSegmentResolved, hb]

theorem write_resolved {g : SegmentState} (hd : ∀ r, g.done r = true) :
    g.isSegmentResolved .write = true := by
  have hp : g.primaryDone = true := hd .primary
  have hb : g.backupDone = true := hd .backup
  simp [SegmentState.isSegmentResolved, hp, hb]

theorem successful_of_resolved {op : TicketOp} {g : SegmentState}
    (hok : ∀ r, g.done r = true → succeeded (g.msg r) = true)
    (hres : g.isSegmentResolved op = true) : g.isSegmentSuccessful op = true := by
  have hprimary : g.primaryDone = true → succeeded g.primaryMsg = true := hok .primary
  have hbackup : g.backupDone = true → succeeded g.backupMsg = true := hok .backup
  cases op with
  | write =>
    obtain ⟨hp, hb⟩ : g.primaryDone = true ∧ g.backupDone = true := by
      simpa [SegmentState.isSegmentResolved] using hres
    simp [SegmentState.isSegmentSuccessful, hprimary hp, hbackup hb]
  | read =>
    simp only [SegmentState.isSegmentSuccessful, SegmentState.selectSegmentMessage]
    cases hp : g.primaryDone with
    | true => simp [hprimary hp]
    | false =>
      have hb : g.backupDone = true := by simpa [SegmentState.isSegmentResolved, hp] using hres
      simp [hb, hbackup hb]

theorem Cut.completed (h : Cut M dead s) (hj : s.master.jobs[j]? = some job)
    (hq : Quiescent s j job) (hspared : Spared M dead job.req) : job.completed = true := by
  have hl := h.ordered.chunks
  have hplan := hl.net.planned j job hj
  have hphase : job.phase = .sending ∧ job.sent = job.ops.length := by
    have hdone := hq.1
    simp only [Job.commandDone, Bool.or_eq_true, Bool.and_eq_true, beq_iff_eq] at hdone
    exact hdone.resolve_left (h.running j job hj)
  obtain ⟨t, ht, -⟩ := (hl.net.master.sound j job hj).sending hphase.1
  obtain ⟨-, htop, -⟩ := (hl.net.master.sound j job hj).ticket_eq t ht
  have hshape := hplan.shape t ht
  rw [hl.segments hj, List.map_singleton] at hshape
  obtain ⟨g, hg, -⟩ := List.map_eq_singleton_iff.mp hshape
  by_contra hc
  have hpend : t.completed = false := by simpa [Job.completed, ht] using hc
  have hdone : ∀ r, dead (M.minionOf r job.req.offset.toNat) = false → g.done r = true := by
    intro r hr
    obtain ⟨i, o, hi, hidx, rfl, -⟩ := hplan.send (by simp [ht])
      (by rw [hl.segments hj]; exact List.getElem?_cons_zero) r
    have hlt : i < job.sent := by
      rw [hphase.2]
      exact (List.getElem?_eq_some_iff.mp hi).1
    rw [← (hl.minion_eq hj hi).2] at hr
    rcases (h.heard hj hq hi hlt).resolve_right (by simp [hr]) with hcomp | ⟨t₁, g₁, ht₁, hg₁, hd⟩
    · exact absurd hcomp hc
    · obtain rfl := Option.some.inj (ht.symm.trans ht₁)
      rw [hidx, hg, List.getElem?_cons_zero] at hg₁
      exact Option.some.inj hg₁ ▸ hd
  have hok : ∀ r, g.done r = true → succeeded (g.msg r) = true :=
    h.succeeding.recorded j job t 0 g hj ht (by rw [hg]; rfl)
  have hres : g.isSegmentResolved t.op = true := by
    rw [htop]
    rw [Spared] at hspared
    cases hop : job.req.op with
    | read =>
      rw [hop] at hspared
      obtain ⟨r, hr⟩ := hspared
      exact read_resolved hok (hdone r hr)
    | write =>
      rw [hop] at hspared
      exact write_resolved fun r => hdone r (hspared r)
  obtain ⟨z, hslow, -, hprompt⟩ := h.slower
  have hall := hprompt.unresolved j job t (by rw [hslow.master, hj]) ht hpend
  rw [hg] at hall
  simp [hres] at hall

/-- The reply says success. -/
def Succeeded (job : Job) : Prop :=
  ∃ data, job.reply = (NbdReply.header ⟨0, job.req.handle⟩).map some ++ data

theorem Cut.succeeded (h : Cut M dead s) (hj : s.master.jobs[j]? = some job)
    (hc : job.completed = true) : Succeeded job := by
  obtain ⟨t, ht, hcomp⟩ := Option.any_eq_true _ _ |>.mp hc
  have hresult : t.outcome.result = true := by
    have hres := h.ordered.resolved j job t hj ht hcomp
    rw [List.all_eq_true] at hres
    refine List.all_eq_true.mpr fun g hg => ?_
    obtain ⟨x, hx⟩ := List.getElem?_of_mem hg
    exact successful_of_resolved (h.succeeding.recorded j job t x g hj ht hx) (hres g hg)
  exact ⟨t.outcome.payload, by simp [Job.reply, ht, NbdReply.bytes, hresult]⟩

theorem Cut.replied (h : Cut M dead s) (hj : s.master.jobs[j]? = some job)
    (hc : job.completed = true) : Replied s.master j job ∧ Succeeded job := by
  have hl := h.ordered.chunks
  exact ⟨replied_of_completed hl.net.master hj hc fun k job' hk hu => hl.uids.eq hj hk hu,
    h.succeeded hj hc⟩

/-- A request that waits for an answer that nobody will send. -/
def Hanging (s : Sys) (j : ℕ) : Prop :=
  ∃ job, s.master.jobs[j]? = some job ∧ Quiescent s j job ∧ job.completed = false

theorem step_hanging (hg : Lossy M s a) (hst : Sys.step M s a = some s') (hn : Net M s)
    (h : Hanging s j) : Hanging s' j := by
  obtain ⟨job, hj, hq, hc⟩ := h
  obtain ⟨hj', hq'⟩ := step_quiescent hg hst hn hj hq
  exact ⟨job, hj', hq', hc⟩

/-- The drive goes on with minions cut off. Once the command of a request has run and none of its
datagrams is on its way, a read has been replied with success and with all its bytes if
one of its two minions is there, and a write if both are. A request without its reply
then never gets one, even if the minions are back. -/
theorem degraded_replies (M : MinionManager) (dead : ℕ → Bool) (as : List Action) (s : Sys)
    (hN : 2 ≤ M.numMinions) (hrun : run (Sys.step M) (Degraded M dead) as (Sys.init M) = some s)
    (j : ℕ) (job : Job) (hj : s.master.jobs[j]? = some job) (hq : Quiescent s j job) :
    (Spared M dead job.req → Replied s.master j job ∧ Succeeded job ∧
      (job.req.op = .read → ∀ a, Covers job.req a → ∃ v, replyByte job a = some (some v))) ∧
    (job.completed = false → ∀ as' s', run (Sys.step M) (Lossy M) as' s = some s' →
      ∃ job', s'.master.jobs[j]? = some job' ∧ job'.completed = false) := by
  have h := run_cut hN hrun
  have hl := h.ordered.chunks
  refine ⟨fun hspared => ?_, fun hc as' s' hrun' => ?_⟩
  · have hc := h.completed hj hq hspared
    obtain ⟨hreplied, hok⟩ := h.replied hj hc
    refine ⟨hreplied, hok, fun hop a ha => ?_⟩
    obtain ⟨r, pre, hseen, hbyte⟩ := h.history.replyByte_eq h.ordered hj hop hc
    have hlen : (replay 0 (emptyFile M) pre).length = M.mbMinion := by
      rw [replay_length (h.history.bounds hl hseen.1), emptyFile, List.length_replicate]
    have hlt : a % M.mbMinion < (replay 0 (emptyFile M) pre).length := by
      rw [hlen]
      exact Nat.mod_lt _ M.mb_pos
    exact ⟨_, by rw [hbyte a ha, List.getElem?_eq_getElem hlt]⟩
  · have hhang : Local M s' ∧ Hanging s' j := by
      refine run_invariant (P := fun s => Local M s ∧ Hanging s j) ?_ hrun' ⟨hl, job, hj, hq, hc⟩
      exact fun s a s' hg hst h => ⟨step_local hN hg hst h.1, step_hanging hg hst h.1.net h.2⟩
    obtain ⟨job', hj', -, hc'⟩ := hhang.2
    exact ⟨job', hj', hc'⟩

/-- A read and then a write of a byte whose primary minion is cut off. -/
def primaryCutOff : List Action :=
  let idle := fun _ : ℕ => (0 : UInt8)
  [.getTaskArgs (byteRead 1 0) 1] ++ List.replicate 5 (.advance 0 true idle) ++
    [.loseRequest 0, .execute 0 idle idle, .answer 0 idle, .getTaskArgs (byteWrite 2 0 5) 2] ++
      List.replicate 5 (.advance 1 true idle) ++
        [.loseRequest 0, .execute 0 idle idle, .answer 0 idle]

theorem degraded_replies_primaryCutOff :
    ∃ s read write, run (Sys.step MinionManager.smallDrive)
        (Degraded MinionManager.smallDrive (· == 0)) primaryCutOff
        (Sys.init MinionManager.smallDrive) = some s ∧
      s.master.jobs[0]? = some read ∧ s.master.jobs[1]? = some write ∧
        Replied s.master 0 read ∧ Succeeded read ∧ Quiescent s 1 write ∧
          write.completed = false := by
  have hrun : (run (Sys.step MinionManager.smallDrive)
      (Degraded MinionManager.smallDrive (· == 0)) primaryCutOff
      (Sys.init MinionManager.smallDrive)).map (fun s =>
        (s.master.jobs.map (fun job =>
          (job.req.op, job.req.offset.toNat, job.commandDone, job.completed)),
          s.toMinion ++ s.toMaster)) =
      some ([(.read, 0, true, true), (.write, 0, true, false)], []) := by decide +kernel
  obtain ⟨s, hs, he⟩ := Option.map_eq_some_iff.mp hrun
  obtain ⟨hjobs, hnet⟩ := Prod.mk.inj he
  obtain ⟨read, rest, hlist, hread, hrest⟩ := List.map_eq_cons_iff.mp hjobs
  obtain ⟨write, hwrite, hpend⟩ := List.map_eq_singleton_iff.mp hrest
  subst hwrite
  simp only [Prod.mk.injEq] at hread hpend
  have hj : s.master.jobs[0]? = some read := by simp [hlist]
  have hj' : s.master.jobs[1]? = some write := by simp [hlist]
  have hspared : Spared MinionManager.smallDrive (· == 0) read.req := by
    rw [Spared, hread.1, hread.2.1]
    exact ⟨.backup, by decide⟩
  obtain ⟨hreplied, hok, -⟩ := (degraded_replies MinionManager.smallDrive (· == 0) primaryCutOff s
    (by decide) hs 0 read hj ⟨hread.2.2.1, by simp [hnet]⟩).1 hspared
  exact ⟨s, read, write, hs, hj, hj', hreplied, hok, ⟨hpend.2.2.1, by simp [hnet]⟩, hpend.2.2.2⟩

end IoTDrive.System
