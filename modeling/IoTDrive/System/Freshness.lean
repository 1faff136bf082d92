import IoTDrive.System.ReadJournal

/-! What a read may return while other requests are outstanding and datagrams get lost. Every
byte of its reply is zero or was written, and it is not stale: once a write has been
replied, a later read returns its byte or one of a write that was still open when that
write was issued. Reads and writes lie inside one chunk each. -/

namespace IoTDrive.System

open Lib Message Minion Stripe Master Drive

variable {M : MinionManager} {s s' s₀ s₁ : Sys} {base : Moment}

/-! ### What a step does to requests and journals -/

/-- Requests stay what they are, and replied. -/
def Keeps (s s' : Sys) : Prop :=
  ∀ (k : ℕ) (job : Job), s.master.jobs[k]? = some job → ∃ job', s'.master.jobs[k]? = some job' ∧
    job'.uid = job.uid ∧ job'.req = job.req ∧ (job.completed = true → job'.completed = true)

theorem Keeps.refl (s : Sys) : Keeps s s := fun _ job hj => ⟨job, hj, rfl, rfl, id⟩

theorem Keeps.trans {s'' : Sys} (h : Keeps s s') (h' : Keeps s' s'') : Keeps s s'' := by
  intro k job hj
  obtain ⟨job', hj', hu, hr, hc⟩ := h k job hj
  obtain ⟨job'', hj'', hu', hr', hc'⟩ := h' k job' hj'
  exact ⟨job'', hj'', hu'.trans hu, hr'.trans hr, hc' ∘ hc⟩

theorem keeps_of_set {j : ℕ} {job job' : Job} (hj : s.master.jobs[j]? = some job)
    (hjobs : s'.master.jobs = s.master.jobs.set j job') (hu : job'.uid = job.uid)
    (hr : job'.req = job.req) (hc : job.completed = true → job'.completed = true) :
    Keeps s s' := by
  intro k job₁ hk
  have hget : s'.master.jobs[k]? = if k = j then some job' else s.master.jobs[k]? := by
    rw [hjobs]
    exact MasterState.jobs_setJob hj job' k
  by_cases he : k = j
  · subst he
    obtain rfl := Option.some.inj (hj.symm.trans hk)
    exact ⟨job', by rw [hget, if_pos rfl], hu, hr, hc⟩
  · exact ⟨job₁, by rw [hget, if_neg he]; exact hk, rfl, rfl, id⟩

theorem step_keeps {a : Action} (hn : Net M s) (hst : Sys.step M s a = some s') :
    Keeps s s' := by
  cases a with
  | getTaskArgs req uid =>
    obtain rfl := Option.some.inj hst
    exact fun k job hj => ⟨job, MasterState.jobs_getTaskArgs.mpr (.inl hj), rfl, rfl, id⟩
  | advance j sendOk beyond =>
    obtain ⟨⟨master, pk⟩, hr, rfl⟩ := Option.map_eq_some_iff.mp hst
    obtain ⟨job, job', hj, hadv⟩ := MasterState.advance_cases hr
    have hq := hadv.quiet hj hn.master
    exact keeps_of_set hj hq.jobs hq.uid hq.req (by rw [hq.completed]; exact id)
  | execute i stack heap =>
    obtain ⟨p, f, b, he⟩ := execute_cases hst
    intro k job hj
    exact ⟨job, by rw [he.master]; exact hj, rfl, rfl, id⟩
  | answer i stack =>
    obtain ⟨q, k, n, job, o, reply, t, hd⟩ := answer_cases hn hst
    refine keeps_of_set hd.tracked.job_eq hd.jobs rfl rfl fun hc => ?_
    have hcomp : t.completed = true := by simpa [Job.completed, hd.ticket] using hc
    simp [Job.completed, Ticket.onMirrorResponse_monotone hcomp]
  | _ =>
    obtain rfl := Option.some.inj hst
    exact Keeps.refl _

theorem step_slots {a : Action} (hg : Lossy M s a) (hst : Sys.step M s a = some s')
    (hn : Net M s) (hn' : Net M s') (h : Slots s) : Slots s' := by
  cases a with
  | getTaskArgs req uid =>
    obtain rfl := Option.some.inj hst
    exact getTaskArgs_slots h
  | advance j sendOk beyond =>
    obtain ⟨⟨master, pk⟩, hr, rfl⟩ := Option.map_eq_some_iff.mp hst
    obtain ⟨job, job', hj, hadv⟩ := MasterState.advance_cases hr
    exact advance_slots h hn hj hadv
  | execute i stack heap =>
    obtain ⟨p, f, b, he⟩ := execute_cases hst
    exact h.of_subset he.master he.inFlight
  | answer i stack =>
    obtain ⟨q, k, n, job, o, reply, t, hd⟩ := answer_cases hn hst
    exact answer_slots h hn hn' hd
  | loseRequest i =>
    obtain rfl := Option.some.inj hst
    exact h.of_subset rfl fun hi => hi.of_less (fun _ hp => List.mem_of_mem_eraseIdx hp)
      fun _ hp => hp
  | loseAnswer i =>
    obtain rfl := Option.some.inj hst
    exact h.of_subset rfl fun hi => hi.of_less (fun _ hp => hp)
      fun _ hp => List.mem_of_mem_eraseIdx hp
  | _ => exact hg.elim

/-! ### Requests of which nothing more is to come -/

theorem quiescent_iff {j : ℕ} {job : Job} :
    Quiescent s j job ↔ job.commandDone = true ∧ ∀ i, ¬ InFlight s j i := by
  refine and_congr_right fun _ => ⟨fun h i => ?_, fun h p hp i horig => h i ⟨p, hp, horig⟩⟩
  rintro ⟨p, hp, horig⟩
  exact h p hp i horig

theorem Quiescent.of_subset {j : ℕ} {job : Job} (h : Quiescent s j job)
    (hf : ∀ i, InFlight s' j i → InFlight s j i) : Quiescent s' j job := by
  rw [quiescent_iff] at h ⊢
  exact ⟨h.1, fun i hi => h.2 i (hf i hi)⟩

/-- A request without a datagram on its way stays what it is. -/
theorem step_quiescent {a : Action} (hg : Lossy M s a) (hst : Sys.step M s a = some s')
    (hn : Net M s) {j : ℕ} {job : Job} (hj : s.master.jobs[j]? = some job)
    (hq : Quiescent s j job) : s'.master.jobs[j]? = some job ∧ Quiescent s' j job := by
  have hquiet := (quiescent_iff.mp hq).2
  cases a with
  | getTaskArgs req uid =>
    obtain rfl := Option.some.inj hst
    exact ⟨MasterState.jobs_getTaskArgs.mpr (.inl hj), hq.of_subset fun i hi => hi⟩
  | advance k sendOk beyond =>
    obtain ⟨⟨master, pk⟩, hr, rfl⟩ := Option.map_eq_some_iff.mp hst
    obtain ⟨job₁, job₂, hk, hadv⟩ := MasterState.advance_cases hr
    have hne : j ≠ k := by
      -- its command has run
      rintro rfl
      obtain rfl := Option.some.inj (hj.symm.trans hk)
      have hdone := hq.1
      cases hadv <;> simp_all [Job.commandDone]
    refine ⟨?_, hq.of_subset ?_⟩
    · change master.jobs[j]? = _
      rw [(hadv.quiet hk hn.master).getElem? hk, if_neg hne, hj]
    · rintro i ⟨p, hp, horig⟩
      refine ⟨p, ?_, horig⟩
      simp only [List.mem_append] at hp ⊢
      rcases hp with (hp | hp) | hp
      · exact .inl hp
      · cases hadv with
        | send =>
          obtain rfl : p = _ := by simpa using hp
          exact absurd (Prod.mk.inj (Option.some.inj horig)).1.symm hne
        | _ => simp at hp
      · exact .inr hp
  | execute i stack heap =>
    obtain ⟨p, f, b, he⟩ := execute_cases hst
    exact ⟨by rw [he.master, hj], hq.of_subset fun i hi => he.inFlight hi⟩
  | answer i stack =>
    obtain ⟨q, k, n, job₁, o, reply, t, hd⟩ := answer_cases hn hst
    have hne : j ≠ k := by
      rintro rfl
      exact hquiet n ⟨q, List.mem_append_right _ (List.mem_of_getElem? hd.packet),
        hd.tracked.origin⟩
    exact ⟨by rw [hd.getElem?, if_neg hne, hj], hq.of_subset fun i hi => (hd.inFlight hn hi).1⟩
  | loseRequest i =>
    obtain rfl := Option.some.inj hst
    exact ⟨hj, hq.of_subset fun _ hi => hi.of_less (fun _ hp => List.mem_of_mem_eraseIdx hp)
      fun _ hp => hp⟩
  | loseAnswer i =>
    obtain rfl := Option.some.inj hst
    exact ⟨hj, hq.of_subset fun _ hi => hi.of_less (fun _ hp => hp)
      fun _ hp => List.mem_of_mem_eraseIdx hp⟩
  | _ => exact hg.elim

/-- The request is replied, or its command has run and none of its datagrams is left. -/
def Finished (s : Sys) (j : ℕ) : Prop :=
  ∃ job, s.master.jobs[j]? = some job ∧ (job.completed = true ∨ Quiescent s j job)

theorem step_finished {a : Action} (hg : Lossy M s a) (hst : Sys.step M s a = some s')
    (hn : Net M s) {j : ℕ} (h : Finished s j) : Finished s' j := by
  obtain ⟨job, hj, hc | hq⟩ := h
  · obtain ⟨job', hj', -, -, hc'⟩ := step_keeps hn hst j job hj
    exact ⟨job', hj', .inl (hc' hc)⟩
  · obtain ⟨hj', hq'⟩ := step_quiescent hg hst hn hj hq
    exact ⟨job, hj', .inr hq'⟩

/-- A finished write has no datagram left. -/
theorem Finished.not_inFlight {k : ℕ} {job : Job} (h : Finished s k) (hs : Slots s)
    (hk : s.master.jobs[k]? = some job) (hop : job.req.op = .write) (n : ℕ) :
    ¬ InFlight s k n := by
  obtain ⟨job', hk', hdone⟩ := h
  obtain rfl := Option.some.inj (hk.symm.trans hk')
  rcases hdone with hc | hq
  · exact (hs.written k job hk hop hc).2 n
  · exact (quiescent_iff.mp hq).2 n

/-- A journal grows by blocks of writes that are on their way. -/
theorem step_writesAt {a : Action} (hg : Lossy M s a) (hst : Sys.step M s a = some s')
    (hl : Local M s) (hserves : ∀ m, (s.files m).Serves M.mbMinion) (m : ℕ) :
    s'.writesAt m = s.writesAt m ∨ ∃ (k n : ℕ) (job : Job) (r : MirrorRole), InFlight s k n ∧
      s.master.jobs[k]? = some job ∧ job.req.op = .write ∧
        m = M.minionOf r job.req.offset.toNat ∧
          s'.writesAt m = s.writesAt m ++ [blockOf M job] := by
  cases a with
  | getTaskArgs req uid =>
    obtain rfl := Option.some.inj hst
    exact .inl rfl
  | advance j sendOk beyond =>
    obtain ⟨⟨master, pk⟩, -, rfl⟩ := Option.map_eq_some_iff.mp hst
    exact .inl rfl
  | execute i stack heap =>
    obtain ⟨p, f, b, he⟩ := execute_cases hst
    have hp := List.mem_of_getElem? he.packet
    obtain ⟨j, n, job, o, htr, hr⟩ := hl.net.requests p hp
    cases hop : job.req.op with
    | read => exact .inl ((he.reads hl (hserves _) htr hr hop).2.2.1 m)
    | write =>
      rcases he.journals hl.net (hserves _) htr hr hop (hl.job htr.job_eq).2 with
        ⟨hex, -, -⟩ | ⟨hw, -, -⟩
      · exact .inl (writesAt_of_executed hex m)
      · rw [hw]
        split_ifs with hm
        · refine .inr ⟨j, n, job, o.role, ⟨p, List.mem_append_left _ hp, htr.origin⟩, htr.job_eq,
            hop, ?_, rfl⟩
          rw [← hm, htr.minion]
          exact (hl.minion_eq htr.job_eq htr.op_eq).2
        · exact .inl (List.append_nil _)
  | answer i stack =>
    obtain ⟨q, k, n, job, o, reply, t, hd⟩ := answer_cases hl.net hst
    exact .inl (writesAt_of_executed hd.executed m)
  | loseRequest i =>
    obtain rfl := Option.some.inj hst
    exact .inl rfl
  | loseAnswer i =>
    obtain rfl := Option.some.inj hst
    exact .inl rfl
  | _ => exact hg.elim

/-! ### Runs -/

/-- What holds along a run over a network that loses datagrams. -/
structure Ordered (M : MinionManager) (s : Sys) : Prop where
  chunks : Local M s
  slots : Slots s
  resolved : Resolved s

theorem init_ordered (M : MinionManager) : Ordered M (Sys.init M) where
  chunks := init_local M
  slots := init_slots M
  resolved := by simp [Resolved, Sys.init, MasterState.init]

theorem step_ordered (hN : 2 ≤ M.numMinions) {a : Action} (hg : Lossy M s a)
    (hst : Sys.step M s a = some s') (h : Ordered M s) : Ordered M s' := by
  have hl := step_local hN hg hst h.chunks
  exact ⟨hl, step_slots hg hst h.chunks.net hl.net h.slots,
    h.chunks.net.step_resolved hst h.resolved⟩

/-- Since the state `s₀` requests have stayed replied and finished, and only writes that were not
finished then have been executed. -/
structure Since (M : MinionManager) (s₀ s : Sys) : Prop where
  keeps : Keeps s₀ s
  finished : ∀ k, Finished s₀ k → Finished s k
  new : ∀ m, ∃ bs, s.writesAt m = s₀.writesAt m ++ bs ∧ ∀ b ∈ bs,
    ∃ (k : ℕ) (job : Job) (r : MirrorRole), s.master.jobs[k]? = some job ∧ job.req.op = .write ∧
      m = M.minionOf r job.req.offset.toNat ∧ b = blockOf M job ∧ ¬ Finished s₀ k

theorem Since.refl (s : Sys) : Since M s s :=
  ⟨Keeps.refl s, fun _ => id, fun m => ⟨[], by simp, by simp⟩⟩

theorem Since.trans (h : Since M s₀ s) (h' : Since M s s') : Since M s₀ s' := by
  refine ⟨h.keeps.trans h'.keeps, fun k hk => h'.finished k (h.finished k hk), fun m => ?_⟩
  obtain ⟨bs, hbs, hold⟩ := h.new m
  obtain ⟨bs', hbs', hnew⟩ := h'.new m
  refine ⟨bs ++ bs', by rw [hbs', hbs, List.append_assoc], fun b hb => ?_⟩
  rcases List.mem_append.mp hb with hb | hb
  · obtain ⟨k, job, r, hj, hop, hm, rfl, hfresh⟩ := hold b hb
    obtain ⟨job', hj', hu, hr, -⟩ := h'.keeps k job hj
    exact ⟨k, job', r, hj', hr ▸ hop, hr ▸ hm, by rw [blockOf, blockOf, hu, hr], hfresh⟩
  · obtain ⟨k, job, r, hj, hop, hm, rfl, hfresh⟩ := hnew b hb
    exact ⟨k, job, r, hj, hop, hm, rfl, fun hk => hfresh (h.finished k hk)⟩

theorem Since.journal (h : Since M s₀ s) (m : ℕ) : s₀.writesAt m <+: s.writesAt m := by
  obtain ⟨bs, hbs, -⟩ := h.new m
  exact ⟨bs, hbs.symm⟩

theorem step_since {a : Action} (hg : Lossy M s a) (hst : Sys.step M s a = some s')
    (h : Ordered M s) (hserves : ∀ m, (s.files m).Serves M.mbMinion) (hs : Since M s₀ s) :
    Since M s₀ s' := by
  have hkeep := step_keeps h.chunks.net hst
  refine ⟨hs.keeps.trans hkeep,
    fun k hk => step_finished hg hst h.chunks.net (hs.finished k hk), fun m => ?_⟩
  obtain ⟨bs, hbs, hnew⟩ := hs.new m
  have hnew' : ∀ b ∈ bs, ∃ (k : ℕ) (job : Job) (r : MirrorRole), s'.master.jobs[k]? = some job ∧
      job.req.op = .write ∧ m = M.minionOf r job.req.offset.toNat ∧ b = blockOf M job ∧
        ¬ Finished s₀ k := by
    intro b hb
    obtain ⟨k, job, r, hj, hop, hm, rfl, hold⟩ := hnew b hb
    obtain ⟨job', hj', hu, hr, -⟩ := hkeep k job hj
    exact ⟨k, job', r, hj', hr ▸ hop, hr ▸ hm, by rw [blockOf, blockOf, hu, hr], hold⟩
  rcases step_writesAt hg hst h.chunks hserves m with hw | ⟨k, n, job, r, hfly, hj, hop, hm, hw⟩
  · exact ⟨bs, hw.trans hbs, hnew'⟩
  · refine ⟨bs ++ [blockOf M job], by rw [hw, hbs, List.append_assoc], fun b hb => ?_⟩
    rcases List.mem_append.mp hb with hb | hb
    · exact hnew' b hb
    · obtain ⟨job', hj', hu, hr, -⟩ := hkeep k job hj
      refine ⟨k, job', r, hj', hr ▸ hop, hr ▸ hm, ?_, fun hold => ?_⟩
      · rw [List.mem_singleton.mp hb, blockOf, blockOf, hu, hr]
      · exact (hs.finished k hold).not_inFlight h.slots hj hop n hfly

/-- The invariants at the end of a run, seen from its beginning. -/
theorem run_history {as : List Action} (hN : 2 ≤ M.numMinions)
    (hrun : run (Sys.step M) (Lossy M) as s₀ = some s) (h : Ordered M s₀)
    (hh : History base M s₀) : Ordered M s ∧ History base M s ∧ Since M s₀ s := by
  refine run_invariant (P := fun s => Ordered M s ∧ History base M s ∧ Since M s₀ s) ?_ hrun
    ⟨h, hh, Since.refl s₀⟩
  rintro s a s' hg hst ⟨ho, hh, hs⟩
  exact ⟨step_ordered hN hg hst ho, step_history hg hst ho.chunks hh,
    step_since hg hst ho hh.serves hs⟩

/-! ### The reply to a read -/

/-- A resolved segment of a read whose answers are successful selects one of them. -/
theorem exists_select {g : SegmentState} (hres : SegmentState.isSegmentResolved .read g = true)
    (hm : ∀ q, g.done q = true → ∃ msg, g.msg q = some msg ∧ msg.getResult = true) :
    ∃ q, g.done q = true ∧ g.selectSegmentMessage = g.msg q := by
  cases hp : g.primaryDone with
  | true =>
    obtain ⟨msg, hmsg, hok⟩ := hm .primary hp
    refine ⟨.primary, hp, ?_⟩
    have hmsg : g.primaryMsg = some msg := hmsg
    simp [SegmentState.selectSegmentMessage, SegmentState.msg, hp, hmsg, succeeded, hok]
  | false =>
    have hb : g.backupDone = true := by simpa [SegmentState.isSegmentResolved, hp] using hres
    exact ⟨.backup, hb, by simp [SegmentState.selectSegmentMessage, SegmentState.msg, hp, hb]⟩

/-- The reply of a read that is one segment: the bytes of the answer it selects. -/
theorem reply_of_select {job : Job} {t : Ticket} {g : SegmentState} {msg : AMessage}
    {bytes : List UInt8} (ht : job.ticket = some t) (hop : t.op = .read) (hg : t.segments = [g])
    (hplace : (g.length, g.bufferOffset) = (bytes.length, 0)) (htot : t.totalLength = bytes.length)
    (hsel : g.selectSegmentMessage = some msg) (hok : msg.getResult = true)
    (hdata : msg.getData = some bytes) :
    job.reply = (NbdReply.header ⟨0, job.req.handle⟩).map some ++ bytes.map some := by
  obtain ⟨hlen, hoff⟩ := Prod.mk.inj hplace
  have hall : SegmentState.isSegmentSuccessful .read g = true := by
    simp [SegmentState.isSegmentSuccessful, hsel, succeeded, hok]
  have hresult : t.outcome.result = true := by simp [Ticket.outcome, hg, hop, hall]
  have hmem : memRead (bytes.map some) (fun _ => none) bytes.length = bytes.map some := by
    rw [memRead_of_le _ (by simp), List.take_of_length_le (by simp)]
  have hcopy : SegmentState.copyTo (List.replicate t.totalLength none) g = bytes.map some := by
    simp [SegmentState.copyTo, hsel, hdata, hlen, hoff, htot, hmem, writeAt]
  have hbuf : t.outcome.buffer = some (bytes.map some) := by
    simp [Ticket.outcome, hg, hop, hall, hcopy]
  have hpayload : t.outcome.payload = bytes.map some := by
    simp only [TaskResult.payload, hresult, hbuf]
    rw [show t.outcome.length = bytes.length from htot,
      memRead_of_le _ (by simp), List.take_of_length_le (by simp)]
  simp [Job.reply, ht, NbdReply.bytes, hresult, hpayload]

theorem blockOf_length {job : Job} (hop : job.req.op = .write) :
    (blockOf M job).values.length = job.req.length.toNat := by
  rw [blockOf, job.req.data_length, if_pos hop]

/-- The blocks of the journals lie in the files. -/
theorem History.bounds (h : History base M s) (hl : Local M s) {m : ℕ}
    {pre : List (Block UID UInt8)} (hpre : pre <+: s.writesAt m) :
    ∀ b ∈ pre, b.pos + b.values.length ≤ (emptyFile M).length := by
  intro b hb
  obtain ⟨k, job, r, hj, hop, -, rfl⟩ := h.source m b (hpre.subset hb)
  have hone := (hl.job hj).2
  rw [blockOf_length hop, emptyFile, List.length_replicate]
  exact hone.2

/-- The byte for an address in the reply to a read, behind the sixteen bytes of the header. -/
def replyByte (job : Job) (a : ℕ) : Option (Option UInt8) :=
  job.reply[16 + (a - job.req.offset.toNat)]?

/-- The place of an address of a request inside one chunk. -/
theorem Local.place (hl : Local M s) {j : ℕ} {job : Job} (hj : s.master.jobs[j]? = some job)
    {a : ℕ} (ha : Covers job.req a) (r : MirrorRole) :
    a % M.mbMinion = job.req.offset.toNat % M.mbMinion + (a - job.req.offset.toNat) ∧
      M.minionOf r a = M.minionOf r job.req.offset.toNat := by
  obtain ⟨hadm, hone⟩ := hl.job hj
  have hmem : (⟨job.req.offset.toNat % M.mbMinion, job.req.length.toNat, 0,
      job.req.offset.toNat / M.mbMinion,
      getBackupIndex (job.req.offset.toNat / M.mbMinion) M.numMinions⟩ : StripeSegment) ∈
        M.segments job.req.offset.toNat job.req.length.toNat := by
    rw [hone.segments hadm.1]
    exact List.mem_singleton.mpr rfl
  obtain ⟨hmin, -, hoff⟩ := locate_of_holds hadm.1 hmem (a := a) ⟨ha.1, ha.2⟩ r
  refine ⟨hoff.symm, ?_⟩
  rw [← hmin]
  cases r <;> rfl

/-- A replied read shows a part of the journal of one of its two minions. -/
theorem History.replyByte_eq (h : History base M s) (ho : Ordered M s) {j : ℕ} {job : Job}
    (hj : s.master.jobs[j]? = some job) (hop : job.req.op = .read) (hc : job.completed = true) :
    ∃ r pre, Seen base s j (M.minionOf r job.req.offset.toNat) pre ∧ ∀ a, Covers job.req a →
      replyByte job a = some ((replay 0 (emptyFile M) pre)[a % M.mbMinion]?) := by
  have hl := ho.chunks
  obtain ⟨t, ht, hcomp⟩ := Option.any_eq_true _ _ |>.mp hc
  have hplan := hl.net.planned j job hj
  obtain ⟨-, htop, htot⟩ := (hl.net.master.sound j job hj).ticket_eq t ht
  rw [hop] at htop
  have hshape := hplan.shape t ht
  rw [hl.segments hj, List.map_singleton] at hshape
  obtain ⟨g, hg, hplace⟩ := List.map_eq_singleton_iff.mp hshape
  have hres : SegmentState.isSegmentResolved .read g = true := by
    have hall := ho.resolved j job t hj ht hcomp
    rw [htop, hg] at hall
    simpa using hall
  -- what has been recorded for the segment
  have hmsgs : ∀ r, g.done r = true → ∃ pre,
      Seen base s j (M.minionOf r job.req.offset.toNat) pre ∧
        g.msg r = some (readAnswer M job pre) := by
    intro r hd
    obtain ⟨i, o, hi, hidx, rfl, -⟩ := hplan.send (by simp [ht])
      (by rw [hl.segments hj]; exact List.getElem?_cons_zero) r
    rw [← (hl.minion_eq hj hi).2]
    exact h.recorded j i job t o g hj hop ht hi (by rw [hidx, hg]; rfl) hd
  obtain ⟨r, hd, hsel⟩ := exists_select hres fun q hd => by
    obtain ⟨pre, -, hmsg⟩ := hmsgs q hd
    exact ⟨_, hmsg, rfl⟩
  obtain ⟨pre, hseen, hmsg⟩ := hmsgs r hd
  refine ⟨r, pre, hseen, fun a ha => ?_⟩
  have hfits := (hl.job hj).2.2
  have hlen : (replay 0 (emptyFile M) pre).length = M.mbMinion := by
    rw [replay_length (h.bounds hl hseen.1), emptyFile, List.length_replicate]
  have hbytes : (((replay 0 (emptyFile M) pre).drop (job.req.offset.toNat % M.mbMinion)).take
      job.req.length.toNat).length = job.req.length.toNat := by
    simp
    omega
  have hreply := reply_of_select ht htop hg (hplace.trans (by rw [hbytes])) (htot.trans hbytes.symm)
    (hsel.trans hmsg) rfl rfl
  -- the bytes of that answer
  have hhead : ((NbdReply.header ⟨0, job.req.handle⟩).map some).length = 16 := by
    simp [NbdReply.header, job.req.handle_length]
  have hlt : a - job.req.offset.toNat < job.req.length.toNat := by
    have := ha.1
    have := ha.2
    omega
  obtain ⟨hmod, -⟩ := hl.place hj ha r
  rw [replyByte, hreply, List.getElem?_append_right (by omega), hhead, Nat.add_sub_cancel_left,
    List.getElem?_map, getElem?_take_drop hlt, ← hmod,
    List.getElem?_eq_getElem (by rw [hlen]; exact Nat.mod_lt _ M.mb_pos)]
  rfl

/-! ### What a read returns -/

/-- A write of `v` to the address, or to a neighbour of it. -/
def Supplies (M : MinionManager) (req : Request) (a : ℕ) (v : UInt8) : Prop :=
  req.op = .write ∧ ∃ b, Covers req b ∧ (b = a ∨ M.Neighbours a b) ∧
    req.data[b - req.offset.toNat]? = some v

/-- A block that covers the cell of an address at one of its minions supplies its byte. -/
theorem supplies_of_block (hl : Local M s) {k : ℕ} {job : Job} (hk : s.master.jobs[k]? = some job)
    (hop : job.req.op = .write) {a : ℕ} (ha : a < M.getDriveSize) {r q : MirrorRole}
    (hm : M.minionOf r a = M.minionOf q job.req.offset.toNat)
    (hcov : (blockOf M job).Covers (a % M.mbMinion)) :
    ∃ v, (blockOf M job).values[a % M.mbMinion - (blockOf M job).pos]? = some v ∧
      Supplies M job.req a v := by
  obtain ⟨hlo, hhi⟩ := hcov
  rw [blockOf_length hop] at hhi
  have hpos : (blockOf M job).pos = job.req.offset.toNat % M.mbMinion := rfl
  -- the address that the block stores there
  set b := job.req.offset.toNat + (a % M.mbMinion - job.req.offset.toNat % M.mbMinion) with hb
  have hcovers : Covers job.req b := ⟨by omega, by omega⟩
  obtain ⟨hmod, hmin⟩ := hl.place hk hcovers q
  have hsub : b - job.req.offset.toNat = a % M.mbMinion - job.req.offset.toNat % M.mbMinion := by
    omega
  have hlt : b - job.req.offset.toNat < job.req.data.length := by
    rw [job.req.data_length, if_pos hop]
    omega
  refine ⟨job.req.data[b - job.req.offset.toNat], ?_, hop, b, hcovers, ?_,
    List.getElem?_eq_getElem hlt⟩
  · rw [hpos, ← hsub]
    exact List.getElem?_eq_getElem hlt
  · by_cases hab : b = a
    · exact .inl hab
    · refine .inr (MinionManager.neighbours_of_cell_eq ha
        (lt_driveSize_of_covers (hl.job hk).1.1 hcovers) (Ne.symm hab) (r := r) (q := q) ?_)
      rw [MinionManager.cell, MinionManager.cell, hm, hmin, hmod]
      congr 1
      omega

/-- Requests inside one chunk each, any number of them at the same time, over a network that
may delay, reorder and lose: every byte of the reply to a read is zero, or some write
brought it for its address or for a neighbour of it. -/
theorem read_bytes_written (M : MinionManager) (as : List Action) (s : Sys)
    (hN : 2 ≤ M.numMinions) (hrun : run (Sys.step M) (Lossy M) as (Sys.init M) = some s)
    (j : ℕ) (job : Job) (hj : s.master.jobs[j]? = some job) (hop : job.req.op = .read)
    (hc : job.completed = true) (a : ℕ) (ha : Covers job.req a) :
    ∃ v, replyByte job a = some (some v) ∧
      (v = 0 ∨ ∃ (k : ℕ) (write : Job), s.master.jobs[k]? = some write ∧
        Supplies M write.req a v) := by
  obtain ⟨ho, hh, -⟩ := run_history hN hrun (init_ordered M) (init_history M)
  have hl := ho.chunks
  obtain ⟨r, pre, hseen, hbyte⟩ := hh.replyByte_eq ho hj hop hc
  rw [hbyte a ha]
  rcases getElem?_replay_cases (hh.bounds hl hseen.1) (a % M.mbMinion) with
    ⟨-, hval⟩ | ⟨b, hb, hcov, hval⟩
  · refine ⟨0, ?_, .inl rfl⟩
    rw [hval, emptyFile, List.getElem?_replicate, if_pos (Nat.mod_lt _ M.mb_pos)]
  · obtain ⟨k, write, q, hk, hopw, hm, rfl⟩ := hh.source _ b (hseen.1.subset hb)
    obtain ⟨v, hv, hsup⟩ := supplies_of_block hl hk hopw
      (lt_driveSize_of_covers (hl.job hj).1.1 ha)
      ((hl.place hj ha r).2.trans hm) hcov
    exact ⟨v, by rw [hval, hv], .inr ⟨k, write, hk, hsup⟩⟩

/-- A write that is replied, then a read of its byte; the answer of the primary is lost. -/
def writtenByte : List Action := serveInOrder (byteWrite 1 0 5) 1 0

def readFromBackup : List Action :=
  let idle := fun _ : ℕ => (0 : UInt8)
  [.getTaskArgs (byteRead 2 0) 2] ++ List.replicate 5 (.advance 1 true idle) ++
    [.execute 0 idle idle, .execute 0 idle idle, .loseAnswer 0, .answer 0 idle]

/-- What a request asks for, and whether it is replied. -/
def outline (s : Sys) (j : ℕ) : Option (TicketOp × Bool × ℕ × ℕ) :=
  (s.master.jobs[j]?).map fun job =>
    (job.req.op, job.completed, job.req.offset.toNat, job.req.length.toNat)

theorem read_bytes_written_from_backup :
    ∃ s read, run (Sys.step MinionManager.smallDrive) (Lossy MinionManager.smallDrive)
        (writtenByte ++ readFromBackup) (Sys.init MinionManager.smallDrive) = some s ∧
      s.master.jobs[1]? = some read ∧ ∃ v, replyByte read 0 = some (some v) ∧
        (v = 0 ∨ ∃ (k : ℕ) (write : Job), s.master.jobs[k]? = some write ∧
          Supplies MinionManager.smallDrive write.req 0 v) := by
  have hrun : (run (Sys.step MinionManager.smallDrive) (Lossy MinionManager.smallDrive)
      (writtenByte ++ readFromBackup) (Sys.init MinionManager.smallDrive)).map
        (fun s => outline s 1) = some (some (.read, true, 0, 1)) := by decide +kernel
  obtain ⟨s, hs, he⟩ := Option.map_eq_some_iff.mp hrun
  obtain ⟨read, hj, hread⟩ := Option.map_eq_some_iff.mp he
  simp only [Prod.mk.injEq] at hread
  exact ⟨s, read, hs, hj, read_bytes_written MinionManager.smallDrive
    (writtenByte ++ readFromBackup) s (by decide) hs 1 read hj hread.1 hread.2.1 0
    (by simp [Covers, hread])⟩

/-- Both minions have executed a write that has been replied. -/
theorem History.replied_mem (h : History base M s) (ho : Ordered M s) {k : ℕ} {job : Job}
    (hk : s.master.jobs[k]? = some job) (hop : job.req.op = .write) (hc : job.completed = true)
    (r : MirrorRole) : blockOf M job ∈ s.writesAt (M.minionOf r job.req.offset.toNat) := by
  have hl := ho.chunks
  have hplan := hl.net.planned k job hk
  obtain ⟨t, ht, hcomp⟩ := Option.any_eq_true _ _ |>.mp hc
  have htop : t.op = .write := ((hl.net.master.sound k job hk).ticket_eq t ht).2.1.trans hop
  obtain ⟨i, o, hi, -, rfl, -⟩ := hplan.send (by simp [ht])
    (by rw [hl.segments hk]; exact List.getElem?_cons_zero) r
  rw [← (hl.minion_eq hk hi).2]
  exact h.stored k i job o hk hop hi
    (.inr (slotDone_of_resolved hplan ht htop (ho.resolved k job t hk ht hcomp) hi))

/-- A write is acknowledged only after both of its minions have applied it, whatever the network
has lost: it is among the writes that have made the file of the minion what it is. -/
theorem acknowledged_applied (M : MinionManager) (as : List Action) (s : Sys)
    (hN : 2 ≤ M.numMinions) (hrun : run (Sys.step M) (Lossy M) as (Sys.init M) = some s)
    (k : ℕ) (job : Job) (hk : s.master.jobs[k]? = some job) (hop : job.req.op = .write)
    (hc : job.completed = true) (r : MirrorRole) :
    (s.files (M.minionOf r job.req.offset.toNat)).content =
        replay 0 (emptyFile M) (s.writesAt (M.minionOf r job.req.offset.toNat)) ∧
      blockOf M job ∈ s.writesAt (M.minionOf r job.req.offset.toNat) := by
  obtain ⟨ho, hh, -⟩ := run_history hN hrun (init_ordered M) (init_history M)
  exact ⟨hh.content _, hh.replied_mem ho hk hop hc r⟩

theorem acknowledged_applied_backup :
    ∃ s write, run (Sys.step MinionManager.smallDrive) (Lossy MinionManager.smallDrive) writtenByte
        (Sys.init MinionManager.smallDrive) = some s ∧ s.master.jobs[0]? = some write ∧
      blockOf MinionManager.smallDrive write ∈
        s.writesAt (MinionManager.smallDrive.minionOf .backup write.req.offset.toNat) := by
  have hrun : (run (Sys.step MinionManager.smallDrive) (Lossy MinionManager.smallDrive) writtenByte
      (Sys.init MinionManager.smallDrive)).map (fun s => outline s 0) =
        some (some (.write, true, 0, 1)) := by decide +kernel
  obtain ⟨s, hs, he⟩ := Option.map_eq_some_iff.mp hrun
  obtain ⟨write, hk, hwrite⟩ := Option.map_eq_some_iff.mp he
  simp only [Prod.mk.injEq] at hwrite
  exact ⟨s, write, hs, hk, (acknowledged_applied MinionManager.smallDrive writtenByte s (by decide)
    hs 0 write hk hwrite.1 hwrite.2.1 .backup).2⟩

/-- A part of a journal that goes on behind that of `s₀` and has the block of a write issued since
then: at an address of the write it shows the byte of a write that was not finished. -/
theorem Since.shows (hs : Since M s₀ s) (ho : Ordered M s) (hh : History base M s)
    {base₀ : Moment} (hh₀ : History base₀ M s₀) {w : ℕ} {write : Job}
    (hw : s.master.jobs[w]? = some write) (hopw : write.req.op = .write)
    (hissued : s₀.master.jobs.length ≤ w) {a : ℕ} (ha : Covers write.req a) {r : MirrorRole}
    {pre : List (Block UID UInt8)} (hle : s₀.writesAt (M.minionOf r a) <+: pre)
    (hpre : pre <+: s.writesAt (M.minionOf r a)) (hmem : blockOf M write ∈ pre) :
    ∃ v, (replay 0 (emptyFile M) pre)[a % M.mbMinion]? = some v ∧ ∃ (k : ℕ) (last : Job),
      s.master.jobs[k]? = some last ∧ Supplies M last.req a v ∧ ¬ Finished s₀ k := by
  have hl := ho.chunks
  obtain ⟨more, rfl⟩ := hle
  obtain ⟨bs, hbs, hnew⟩ := hs.new (M.minionOf r a)
  have hmore : more <+: bs := by
    rw [hbs, List.prefix_append_right_inj] at hpre
    exact hpre
  have hmem' : blockOf M write ∈ more := by
    refine (List.mem_append.mp hmem).resolve_left fun hold => ?_
    obtain ⟨k, old, -, hk, -, -, hblock⟩ := hh₀.source _ _ hold
    obtain ⟨job, hk', hu, -, -⟩ := hs.keeps k old hk
    have huid : write.uid = job.uid := (congrArg Block.key hblock).trans hu.symm
    obtain rfl := hl.uids.eq hw hk' huid.symm
    exact absurd (List.getElem?_eq_some_iff.mp hk).1 (Nat.not_lt_of_le hissued)
  have hbounds := hh.bounds hl hpre
  have hlen : (replay 0 (emptyFile M) (s₀.writesAt (M.minionOf r a))).length =
      (emptyFile M).length := replay_length fun b hb => hbounds b (List.mem_append_left _ hb)
  have hinside : ∀ b ∈ more, b.pos + b.values.length ≤
      (replay 0 (emptyFile M) (s₀.writesAt (M.minionOf r a))).length := by
    intro b hb
    rw [hlen]
    exact hbounds b (List.mem_append_right _ hb)
  rw [replay_append]
  rcases getElem?_replay_cases hinside (a % M.mbMinion) with ⟨hnone, -⟩ | ⟨b, hb, hcov, hval⟩
  · -- the write covers the place
    obtain ⟨hmod, -⟩ := hl.place hw ha r
    refine absurd ⟨?_, ?_⟩ (hnone _ hmem')
    · change write.req.offset.toNat % M.mbMinion ≤ a % M.mbMinion
      omega
    · have := ha.1
      have := ha.2
      rw [blockOf_length hopw, hmod]
      change _ < write.req.offset.toNat % M.mbMinion + _
      omega
  · obtain ⟨k, last, q, hk, hopl, hmq, rfl, hfresh⟩ := hnew b (hmore.subset hb)
    obtain ⟨v, hv, hsup⟩ := supplies_of_block hl hk hopl
      (lt_driveSize_of_covers (hl.job hw).1.1 ha) hmq hcov
    exact ⟨v, hval.trans hv, k, last, hk, hsup, hfresh⟩

/-- The byte of a read that is issued after a write of it has been replied. -/
theorem Since.read (hs : Since M s₀ s₁) (hs' : Since M s₁ s) {base₀ : Moment}
    (hh₀ : History base₀ M s₀) (ho₁ : Ordered M s₁) (hh₁ : History base M s₁) (ho : Ordered M s)
    (hh : History s₁.moment M s) {w j : ℕ} {write read : Job}
    (hw : s₁.master.jobs[w]? = some write) (hopw : write.req.op = .write)
    (hreplied : write.completed = true) (hissued : s₀.master.jobs.length ≤ w)
    (hj : s.master.jobs[j]? = some read) (hop : read.req.op = .read)
    (hc : read.completed = true) (hlater : s₁.master.jobs.length ≤ j) {a : ℕ}
    (ha : Covers write.req a) (ha' : Covers read.req a) :
    ∃ v, replyByte read a = some (some v) ∧ ∃ (k : ℕ) (last : Job),
      s.master.jobs[k]? = some last ∧ Supplies M last.req a v ∧ ¬ Finished s₀ k := by
  obtain ⟨r, pre, hseen, hbyte⟩ := hh.replyByte_eq ho hj hop hc
  have hstored := hh₁.replied_mem ho₁ hw hopw hreplied r
  rw [← (ho₁.chunks.place hw ha r).2] at hstored
  rw [← (ho.chunks.place hj ha' r).2] at hseen
  -- the read shows all that had been executed when the write was replied
  have hle : s₁.writesAt (M.minionOf r a) <+: pre := hseen.2 hlater
  obtain ⟨write', hw', hu, hr, -⟩ := hs'.keeps w write hw
  have hblock : blockOf M write' = blockOf M write := by rw [blockOf, blockOf, hu, hr]
  rw [hbyte a ha']
  obtain ⟨v, hv, hlast⟩ := (hs.trans hs').shows ho hh hh₀ hw' (hr ▸ hopw) hissued (hr ▸ ha)
    ((hs.journal _).trans hle) hseen.1 (hblock ▸ hle.subset hstored)
  exact ⟨v, by rw [hv], hlast⟩

/-- No read is stale. Let a write be issued after the moment `s₀` and be replied by the moment `s₁`,
and a read of one of its addresses be issued after `s₁`. When the read is replied, its byte
is that of the write, or of another one that was not replied at the moment `s₀`. -/
theorem no_stale_read (M : MinionManager) (as₀ as₁ as₂ : List Action) (s₀ s₁ s₂ : Sys)
    (hN : 2 ≤ M.numMinions) (h₀ : run (Sys.step M) (Lossy M) as₀ (Sys.init M) = some s₀)
    (h₁ : run (Sys.step M) (Lossy M) as₁ s₀ = some s₁)
    (h₂ : run (Sys.step M) (Lossy M) as₂ s₁ = some s₂) (w j : ℕ) (write read : Job)
    (hw : s₁.master.jobs[w]? = some write) (hopw : write.req.op = .write)
    (hreplied : write.completed = true) (hissued : s₀.master.jobs.length ≤ w)
    (hj : s₂.master.jobs[j]? = some read) (hop : read.req.op = .read)
    (hc : read.completed = true) (hlater : s₁.master.jobs.length ≤ j) (a : ℕ)
    (ha : Covers write.req a) (ha' : Covers read.req a) :
    ∃ v, replyByte read a = some (some v) ∧ ∃ (k : ℕ) (last : Job),
      s₂.master.jobs[k]? = some last ∧ Supplies M last.req a v ∧
        ∀ old ∈ s₀.master.jobs[k]?, old.completed = false := by
  obtain ⟨ho₀, hh₀, -⟩ := run_history hN h₀ (init_ordered M) (init_history M)
  obtain ⟨ho₁, hh₁, hsince₁⟩ := run_history hN h₁ ho₀ hh₀
  obtain ⟨ho₂, hh₂, hsince₂⟩ := run_history hN h₂ ho₁ hh₁.rebase
  obtain ⟨v, hv, k, last, hk, hsup, hold⟩ := hsince₁.read hsince₂ hh₀ ho₁ hh₁ ho₂ hh₂ hw hopw
    hreplied hissued hj hop hc hlater ha ha'
  refine ⟨v, hv, k, last, hk, hsup, fun old hk₀ => ?_⟩
  by_contra hc
  exact hold ⟨old, hk₀, .inl (by simpa using hc)⟩

theorem no_stale_read_from_backup :
    ∃ s₁ s₂ read, run (Sys.step MinionManager.smallDrive) (Lossy MinionManager.smallDrive)
        writtenByte (Sys.init MinionManager.smallDrive) = some s₁ ∧
      run (Sys.step MinionManager.smallDrive) (Lossy MinionManager.smallDrive) readFromBackup s₁ =
        some s₂ ∧ s₂.master.jobs[1]? = some read ∧ ∃ v, replyByte read 0 = some (some v) ∧
          ∃ (k : ℕ) (last : Job), s₂.master.jobs[k]? = some last ∧
            Supplies MinionManager.smallDrive last.req 0 v := by
  have hfirst : (run (Sys.step MinionManager.smallDrive) (Lossy MinionManager.smallDrive)
      writtenByte (Sys.init MinionManager.smallDrive)).map
        (fun s => (s.master.jobs.length, outline s 0)) =
        some (1, some (.write, true, 0, 1)) := by decide +kernel
  have hboth : (run (Sys.step MinionManager.smallDrive) (Lossy MinionManager.smallDrive)
      (writtenByte ++ readFromBackup) (Sys.init MinionManager.smallDrive)).map
        (fun s => outline s 1) = some (some (.read, true, 0, 1)) := by decide +kernel
  obtain ⟨s₁, hs₁, he₁⟩ := Option.map_eq_some_iff.mp hfirst
  obtain ⟨s₂, hs₂, he₂⟩ := Option.map_eq_some_iff.mp hboth
  rw [run_append, hs₁] at hs₂
  obtain ⟨hlen, hw⟩ := Prod.mk.inj he₁
  obtain ⟨write, hwj, hwrite⟩ := Option.map_eq_some_iff.mp hw
  obtain ⟨read, hj, hread⟩ := Option.map_eq_some_iff.mp he₂
  simp only [Prod.mk.injEq] at hwrite hread
  obtain ⟨v, hv, k, last, hk, hsup, -⟩ := no_stale_read MinionManager.smallDrive [] writtenByte
    readFromBackup _ s₁ s₂ (by decide) (run_nil _) hs₁ hs₂ 0 1 write read hwj hwrite.1
    hwrite.2.1 (by decide) hj hread.1 hread.2.1 (Nat.le_of_eq hlen) 0
    (by simp [Covers, hwrite]) (by simp [Covers, hread])
  exact ⟨s₁, s₂, read, hs₁, hs₂, hj, v, hv, k, last, hk, hsup⟩

end IoTDrive.System
