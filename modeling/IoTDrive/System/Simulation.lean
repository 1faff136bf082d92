import IoTDrive.System.Execution

/-! Answers of the refinement, and the refinement itself. An answer fills its slot with
what the flat drive would say; the answer that completes a request makes its reply
that of the flat drive, and a completed write has reached both cells of its bytes. So
every step in turn is a step of the flat drive or none. -/

namespace IoTDrive.System

open Lib Message Minion Stripe Master Drive

variable {M : MinionManager} {s s' : Sys} {k : ℕ}

/-! ### Answers -/

section Answer
variable {i l n : ℕ} {q : Packet} {job : Job} {o : SendOp} {reply : AMessage} {t : Ticket}

theorem Delivers.mem_toMaster (hd : Delivers s s' i q l n job o reply t) :
    ∀ p ∈ s'.toMaster, p ∈ s.toMaster := fun p hp => by
  rw [hd.toMaster] at hp
  exact List.mem_of_mem_eraseIdx hp

/-- What the master has heard has been executed. -/
theorem Delivers.executed_before (hd : Delivers s s' i q l n job o reply t) (hn : Net M s)
    {m : ℕ} {o' : SendOp} (ho : job.ops[m]? = some o') (hex : Executed s' l m hd.after o') :
    Executed s l m job o' := by
  rcases hex with ⟨p, hp, horig⟩ | hslot
  · exact .inl ⟨p, hd.mem_toMaster p hp, horig⟩
  · rcases hd.slotDone hslot with hslot | ⟨hseg, hrole⟩
    · exact .inr hslot
    · -- the slot of the answer
      obtain rfl : n = m := (hn.planned l job hd.tracked.job_eq).slot_inj (j := l)
        hd.tracked.op_eq ho (by simp [SendOp.onDone, hseg, hrole])
      exact .inl ⟨q, List.mem_of_getElem? hd.packet, hd.tracked.origin⟩

/-- The answers in the ticket afterwards are as expected. -/
theorem Delivers.recorded (hd : Delivers s s' i q l n job o reply t) (h : Data M s k)
    (hc : job.completed = false) {x : ℕ} {g : SegmentState} {seg : StripeSegment} {r : MirrorRole}
    (hg : (t.onMirrorResponse o.segIdx o.role (some reply)).1.segments[x]? = some g)
    (hs : (job.segments M)[x]? = some seg) (hdone : g.done r = true) :
    g.msg r = some (expected (contents (s.requests.take l)) job.uid job.req seg) := by
  have hstored : (t.store o.segIdx o.role (some reply)).segments[x]? = some g →
      g.msg r = some (expected (contents (s.requests.take l)) job.uid job.req seg) := by
    intro hst
    cases hg₀ : t.segments[x]? with
    | none => simp [Ticket.store, List.getElem?_modify, hg₀] at hst
    | some g₀ =>
      have hold := h.recorded l job t x g₀ seg r hd.tracked.job_eq hc hd.ticket hg₀ hs
      rw [Ticket.getElem?_store hg₀, Option.some.injEq] at hst
      subst hst
      split_ifs at hdone ⊢ with hseg
      · rw [SegmentState.record_done] at hdone
        rw [SegmentState.record_msg]
        split_ifs at hdone ⊢ with hrole
        · subst hseg
          have hans := h.answers q (List.mem_of_getElem? hd.packet) l n job o seg
            hd.tracked.origin hd.tracked.job_eq hc hd.tracked.op_eq hs fun _ => 0
          rw [hd.decoded, Receipt.message.injEq] at hans
          rw [hans]
        · exact hold hdone
      · exact hold hdone
  rcases Ticket.onMirrorResponse_cases t o.segIdx o.role (some reply) with
    ⟨-, he⟩ | ⟨-, -, ⟨-, he⟩ | ⟨-, he⟩⟩
  · rw [he] at hg
    exact h.recorded l job t x g seg r hd.tracked.job_eq hc hd.ticket hg hs hdone
  · rw [he] at hg
    exact hstored hg
  · rw [he] at hg
    exact hstored hg

theorem Delivers.data_of_quiet (hd : Delivers s s' i q l n job o reply t) (h : Data M s k)
    (hn : Net M s) (hq : MasterState.Quiet s.master s'.master l job hd.after) : Data M s' k := by
  refine h.of_quiet hd.tracked.job_eq hq hd.files hd.mem_toMaster
    (fun ho hex => ⟨ho, hd.executed_before hn ho hex⟩) (fun hc ht hg hs hdone => ?_)
  obtain rfl := Option.some.inj ht
  exact hd.recorded h hc hg hs hdone

/-- The cells of a byte that the completed write has left clean. -/
theorem Delivers.cell_of_completes (hd : Delivers s s' i q k n job o reply t) (h : Data M s k)
    (hn : Net M s) (ht : Turns s k) (hcar : Carried M job.req)
    (hq : MasterState.Completes s.master s'.master k job hd.after) {a : ℕ}
    (ha : a < M.getDriveSize) (r : MirrorRole)
    (hclean : cleanAfter M a (clean M (s.requests.take k) a) job.req = true) :
    s.cell M r a = some (apply (contents (s.requests.take k)) job.req a) := by
  have hj := hd.tracked.job_eq
  -- the completed request was the only pending one
  have honly : ∀ {l : ℕ} {job₁ : Job}, s.master.jobs[l]? = some job₁ → job₁.completed = false →
      job₁ = job := fun hl hc => by
    obtain rfl := ht.pending hl hc
    exact Option.some.inj (hl.symm.trans hj)
  cases hop : job.req.op with
  | read =>
    rw [cleanAfter_read hop] at hclean
    rw [apply_of_not_covers (by simp [hop])]
    refine h.settled a ha r (fun l job₁ hl hc hop₁ => ?_) hclean
    rw [honly hl hc, hop] at hop₁
    cases hop₁
  | write =>
    obtain ⟨hnot, hcov⟩ := cleanAfter_write hop hclean
    by_cases hcovers : Covers job.req a
    · rw [apply_of_covers hop hcovers]
      obtain ⟨g, hg, hholds⟩ := exists_holds hcar.1 hcovers
      obtain ⟨x, hx⟩ := List.mem_iff_getElem?.mp hg
      obtain ⟨m, o', hm, rfl, rfl, -⟩ := (hn.planned k job hj).send (by simp [hd.ticket]) hx r
      exact h.stored k m job _ g a hj hq.pending hop hm hx hholds hnot
        (hd.executed_before hn hm (.inr (hd.all_slots hn hop hq.pending hq.completed hm)))
    · rw [apply_of_not_covers fun _ => hcovers]
      refine h.settled a ha r (fun l job₁ hl hc _ => ?_) (hcov.resolve_left hcovers)
      rw [honly hl hc]
      exact ⟨hcovers, hnot⟩

/-- An answer that completes the pending request: its reply is that of the flat drive. -/
theorem Delivers.data_of_completes (hd : Delivers s s' i q k n job o reply t) (h : Data M s k)
    (hn : Net M s) (ht : Turns s k) (hcar : Carried M job.req)
    (hq : MasterState.Completes s.master s'.master k job hd.after) : Data M s' (k + 1) := by
  have hj := hd.tracked.job_eq
  have hget := hq.getElem? hj
  have hreq : s'.requests = s.requests := Sys.requests_set hj hq.jobs hq.uid hq.req
  have htake : s.requests.take (k + 1) = s.requests.take k ++ [job.req] := by
    have hk : s.requests[k]? = some job.req := Sys.requests_eq_some hj
    rw [List.take_add_one, hk, Option.toList_some]
  -- nothing is pending afterwards
  have hdone : ∀ {l : ℕ} {job₁ : Job}, s'.master.jobs[l]? = some job₁ → job₁.completed = true := by
    intro l job₁ hl
    rw [hget] at hl
    split_ifs at hl with he
    · exact Option.some.inj hl ▸ hq.completed
    · by_contra hc
      exact he (ht.pending hl (by simpa using hc))
  have hnot : ∀ {l : ℕ} {job₁ : Job}, s'.master.jobs[l]? = some job₁ →
      job₁.completed ≠ false := fun hl hc => by
    rw [hdone hl] at hc
    cases hc
  constructor
  case serves =>
    rw [hd.files]
    exact h.serves
  case settled =>
    intro a ha r _ hclean
    rw [hreq, htake, clean_append_singleton] at hclean
    rw [hreq, htake, contents_append_singleton,
      show s'.cell M r a = s.cell M r a by rw [Sys.cell, Sys.cell, hd.files]]
    exact hd.cell_of_completes h hn ht hcar hq ha r hclean
  case stored => exact fun _ _ _ _ _ _ hl hc => absurd hc (hnot hl)
  case answers => exact fun _ _ _ _ _ _ _ _ hl hc => absurd hc (hnot hl)
  case recorded => exact fun _ _ _ _ _ _ _ hl hc => absurd hc (hnot hl)
  case replied =>
    intro l job₁ hl hc
    rw [hreq]
    rw [hget] at hl
    split_ifs at hl with he
    · obtain rfl := Option.some.inj hl
      subst he
      have hop := (hn.master.sound l job hj).ticket_eq t hd.ticket
      refine reply_of_expected rfl hq.sound hcar.1 (hd.planned hn) ?_ fun x g seg r hg hs hdn =>
        hd.recorded h hq.pending hg hs hdn
      have hres := hd.resolved hq.pending hq.completed
      rwa [hop.2.1] at hres
    · exact h.replied l job₁ hl hc

theorem Turns.of_completes (h : Turns s k) {job' : Job} (hj : s.master.jobs[k]? = some job)
    (hq : MasterState.Completes s.master s'.master k job job') : Turns s' (k + 1) := by
  have hlen : s.master.jobs.length = k + 1 := by
    have := (List.getElem?_eq_some_iff.mp hj).1
    rcases h.length with hl | hl <;> omega
  refine ⟨.inl (by rw [hq.jobs, List.length_set, hlen]), fun l job₁ hl => ?_, ?_⟩
  · rw [hq.getElem? hj] at hl
    split_ifs at hl with he
    · obtain rfl := Option.some.inj hl
      simp [hq.completed, he]
    · have hlt := (List.getElem?_eq_some_iff.mp hl).1
      rw [h.completed l job₁ hl]
      omega
  · rw [List.range_succ]
    exact hq.stream hj h.stream

end Answer

/-! ### The refinement -/

/-- The drive after requests of which the flat drive has served the first `k`. -/
structure Refines (M : MinionManager) (s : Sys) (k : ℕ) : Prop where
  net : Net M s
  slots : Slots s
  turns : Turns s k
  issued : Issued M s.requests
  data : Data M s k

theorem init_refines (M : MinionManager) : Refines M (Sys.init M) 0 where
  net := init_net M
  slots := init_slots M
  turns := ⟨.inl rfl, by simp [Sys.init, MasterState.init], by
    simp [Sys.init, MasterState.init, MasterState.Stream]⟩
  issued := by simp [Issued, Sys.requests, Sys.init, MasterState.init, MasterState.history]
  data := by
    refine ⟨fun m => FileManager.init_serves _ M.mb_pos, fun a _ r _ _ => ?_,
      by simp [Sys.init, MasterState.init], by simp [Sys.init], by simp [Sys.init, MasterState.init],
      by simp [Sys.init, MasterState.init]⟩
    simp [Sys.cell, Sys.init, FileManager.init_eq, Nat.mod_lt _ M.mb_pos, contents]

/-- A minion that restarts on a file without data has the same file. -/
theorem restart_content {f : FileManager} (hf : f.Serves M.mbMinion)
    (hzero : f.content.all (· == 0) = true) :
    (FileManager.init f.content M.mbMinion M.mb_pos).content = f.content := by
  rw [FileManager.init_eq, eq_comm, List.eq_replicate_iff]
  exact ⟨hf.length_eq, fun b hb => by simpa using List.all_eq_true.mp hzero b hb⟩

theorem Refines.restart (h : Refines M s k) {m : ℕ}
    (hzero : (s.files m).content.all (· == 0) = true)
    (hst : Sys.step M s (.restart m) = some s') : Data M s' k := by
  obtain rfl := Option.some.inj hst
  exact h.data.of_subset rfl (fun _ hq => hq)
    (FileManager.content_update (restart_content (h.data.serves m) hzero))
    (FileManager.serves_update h.data.serves (FileManager.init_serves _ M.mb_pos))

theorem step_issued {a : Action} (hg : InTurn M s a) (hst : Sys.step M s a = some s')
    (h : Issued M s.requests) : Issued M s'.requests := by
  rw [Sys.step_requests hst]
  cases a with
  | getTaskArgs req uid => exact h.append_singleton hg.2.1 hg.2.2
  | _ => simpa [Sys.newRequest] using h

theorem Turns.of_master (h : Turns s k) (hm : s'.master = s.master) : Turns s' k :=
  ⟨hm ▸ h.length, hm ▸ h.completed, hm ▸ h.stream⟩

theorem step_refines {a : Action} (hg : InTurn M s a) (hst : Sys.step M s a = some s')
    (h : Refines M s k) : ∃ k', k ≤ k' ∧ Refines M s' k' := by
  have hnet := step_net hg.careful hst h.net
  have hissued := step_issued hg hst h.issued
  cases a with
  | getTaskArgs req uid =>
    obtain ⟨hall, hcar, hclean⟩ := hg
    obtain rfl := Option.some.inj hst
    exact ⟨k, le_rfl, hnet, getTaskArgs_slots h.slots, getTaskArgs_turns h.turns hall,
      hissued, getTaskArgs_data h.data h.turns hall⟩
  | advance j sendOk beyond =>
    obtain ⟨⟨master, pk⟩, hr, rfl⟩ := Option.map_eq_some_iff.mp hst
    obtain ⟨job, job', hj, hadv⟩ := MasterState.advance_cases hr
    exact ⟨k, le_rfl, hnet, advance_slots h.slots h.net hj hadv,
      h.turns.of_quiet hj (hadv.quiet hj h.net.master), hissued,
      advance_data h.data h.net hj hadv⟩
  | execute i stack heap =>
    obtain ⟨p, f, b, he⟩ := execute_cases hst
    exact ⟨k, le_rfl, hnet, h.slots.of_subset he.master he.inFlight,
      h.turns.of_master he.master, hissued,
      execute_data h.data h.net h.slots h.turns h.issued he⟩
  | answer i stack =>
    obtain ⟨q, l, n, job, o, reply, t, hd⟩ := answer_cases h.net hst
    have hslots := answer_slots h.slots h.net hnet hd
    have hj := hd.tracked.job_eq
    rcases hd.outcome with hq | hq
    · exact ⟨k, le_rfl, hnet, hslots, h.turns.of_quiet hj hq, hissued,
        hd.data_of_quiet h.data h.net hq⟩
    · obtain rfl := h.turns.pending hj hq.pending
      exact ⟨l + 1, Nat.le_succ l, hnet, hslots, h.turns.of_completes hj hq, hissued,
        hd.data_of_completes h.data h.net h.turns (h.issued.job hj).1 hq⟩
  | loseRequest i =>
    obtain rfl := Option.some.inj hst
    refine ⟨k, le_rfl, hnet, h.slots.of_subset rfl ?_, h.turns.of_master rfl, hissued,
      h.data.of_subset rfl (fun _ hq => hq) (fun _ => rfl) h.data.serves⟩
    rintro j n ⟨p, hp, horig⟩
    refine ⟨p, ?_, horig⟩
    exact List.mem_append.mpr ((List.mem_append.mp hp).imp List.mem_of_mem_eraseIdx id)
  | loseAnswer i =>
    obtain rfl := Option.some.inj hst
    refine ⟨k, le_rfl, hnet, h.slots.of_subset rfl ?_, h.turns.of_master rfl, hissued,
      h.data.of_subset rfl (fun _ hq => List.mem_of_mem_eraseIdx hq) (fun _ => rfl) h.data.serves⟩
    rintro j n ⟨p, hp, horig⟩
    refine ⟨p, ?_, horig⟩
    exact List.mem_append.mpr ((List.mem_append.mp hp).imp id List.mem_of_mem_eraseIdx)
  | injectRequest m d => exact hg.elim
  | injectAnswer m d => exact hg.elim
  | disk m f => exact hg.elim
  | restart m =>
    have hdata := h.restart hg hst
    obtain rfl := Option.some.inj hst
    exact ⟨k, le_rfl, hnet, h.slots.of_subset rfl id, h.turns.of_master rfl, hissued, hdata⟩

/-- The socket has seen the replies of the flat drive. -/
theorem Refines.nbdOut_eq (h : Refines M s k) :
    s.master.nbdOut = (replies (fun _ => 0) (s.requests.take k)).map some := by
  have hreply : ∀ n ≤ k, (List.range n).flatMap s.master.replyAt =
      (replies (fun _ => 0) (s.requests.take n)).map some := by
    intro n hn
    induction n with
    | zero => rfl
    | succ n ih =>
      obtain ⟨job, hj, hc⟩ := (h.turns.stream.2.1 n).mp (List.mem_range.mpr hn)
      have hreq : s.requests[n]? = some job.req := Sys.requests_eq_some hj
      rw [List.range_succ, List.flatMap_append, ih (Nat.le_of_succ_le hn), List.flatMap_singleton,
        List.take_add_one, hreq, Option.toList_some, replies_append_singleton, List.map_append]
      congr 1
      simp only [MasterState.replyAt, hj]
      exact h.data.replied n job hj hc
  rw [h.turns.stream.2.2]
  exact hreply k le_rfl

end IoTDrive.System
