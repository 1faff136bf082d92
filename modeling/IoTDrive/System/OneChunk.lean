import IoTDrive.System.FlatDrive

/-! Requests that all lie inside one chunk. Such a request sends one datagram to each of
two minions, so with distinct UIDs no send finds a callback of its own request, and
those of earlier requests wait under other UIDs. Their bytes stay clean, since a
neighbour lies in another chunk. So the drive is the flat drive under any delivery
order. A restarted minion is another matter: its file starts from zeros again. -/

namespace IoTDrive.System

open Lib Message Minion Stripe Master Drive

variable {M : MinionManager} {s s' : Sys} {c : ℕ}

/-- The request lies inside chunk `c`. -/
def Inside (M : MinionManager) (c : ℕ) (req : Request) : Prop :=
  req.offset.toNat / M.mbMinion = c ∧ M.OneChunk req.offset.toNat req.length.toNat

instance (M : MinionManager) (c : ℕ) (req : Request) : Decidable (Inside M c req) :=
  inferInstanceAs (Decidable (_ ∧ _))

theorem Inside.div_eq {req : Request} (h : Inside M c req) {a : ℕ} (ha : Covers req a) :
    a / M.mbMinion = c := by
  obtain ⟨hdiv, -, hfits⟩ := h
  obtain ⟨h1, h2⟩ := ha
  have hmod := Nat.div_add_mod req.offset.toNat M.mbMinion
  rw [hdiv] at hmod
  have hlo : M.mbMinion * c ≤ a := by omega
  have hhi : a < M.mbMinion * (c + 1) := by rw [Nat.mul_succ]; omega
  exact Nat.div_eq_of_lt_le (by rwa [Nat.mul_comm]) (by rwa [Nat.mul_comm])

/-! ### Callbacks -/

/-- Every waiting callback belongs to a request with its UID that has sent to its minion,
or has tried to. -/
def Registered (s : MasterState) : Prop :=
  ∀ m u cb, (s.proxies m).map u = some cb →
    ∃ (j : ℕ) (job : Job) (i : ℕ) (o : SendOp), s.jobs[j]? = some job ∧ job.uid = u ∧
      job.ops[i]? = some o ∧ o.minion = m ∧ (i < job.sent ∨ job.phase = .aborted)

theorem getTaskArgs_registered {m : MasterState} (h : Registered m) {req : Request} {uid : UID} :
    Registered (m.getTaskArgs req uid) := by
  intro n u cb hcb
  obtain ⟨j, job, i, o, hj, hrest⟩ := h n u cb hcb
  exact ⟨j, job, i, o, MasterState.jobs_getTaskArgs.mpr (.inl hj), hrest⟩

theorem advance_registered {m m' : MasterState} {j : ℕ} {job job' : Job} {ok : Bool}
    {pk : Option Packet} (ha : MasterState.Advances M m j job ok job' m' pk)
    (hj : m.jobs[j]? = some job) (hsound : job.Sound) (hplan : Planned M job)
    (h : Registered m) : Registered m' := by
  obtain ⟨hjobs, huid, -, hsent⟩ := ha.frame
  have hget : ∀ l, m'.jobs[l]? = if l = j then some job' else m.jobs[l]? := fun l => by
    rw [hjobs]
    exact MasterState.jobs_setJob hj job' l
  -- the owner of an older callback still owns it
  have hold : ∀ {n u cb}, (m.proxies n).map u = some cb →
      ∃ (l : ℕ) (job : Job) (i : ℕ) (o : SendOp), m'.jobs[l]? = some job ∧ job.uid = u ∧
        job.ops[i]? = some o ∧ o.minion = n ∧ (i < job.sent ∨ job.phase = .aborted) := by
    intro n u cb hcb
    obtain ⟨l, job₁, i, o, hl, hu, ho, hm, hi⟩ := h n u cb hcb
    by_cases he : l = j
    · subst he
      obtain rfl := Option.some.inj (hj.symm.trans hl)
      have hlt : i < job.sent := hi.resolve_right fun hp => by
        cases ha <;> simp_all
      have hops := advance_ops ha hsound hplan (by omega)
      exact ⟨l, job', i, o, by rw [hget, if_pos rfl], huid.trans hu, hops ▸ ho, hm,
        .inl (by omega)⟩
    · exact ⟨l, job₁, i, o, by rw [hget, if_neg he]; exact hl, hu, ho, hm, hi⟩
  have hnew : ∀ {o : SendOp}, job.ops[job.sent]? = some o →
      m'.proxies = (m.withProxy o.minion
        ((m.proxies o.minion).register job.uid (o.onDone j))).proxies →
      job'.ops = job.ops → job.sent < job'.sent ∨ job'.phase = .aborted → Registered m' := by
    intro o ho hprox hops hi n u cb hcb
    rw [hprox] at hcb
    simp only [MasterState.withProxy] at hcb
    by_cases hn : n = o.minion
    · subst hn
      rw [Function.update_self] at hcb
      by_cases hu : u = job.uid
      · subst hu
        exact ⟨j, job', job.sent, o, by rw [hget, if_pos rfl], huid, hops ▸ ho, rfl, hi⟩
      · rw [MinionProxy.register_of_ne _ _ hu] at hcb
        exact hold hcb
    · rw [Function.update_of_ne hn] at hcb
      exact hold hcb
  cases ha with
  | send _ o _ _ ho _ _ => exact hnew ho rfl rfl (.inl (Nat.lt_succ_self _))
  | sendFails _ o ho => exact hnew ho rfl rfl (.inr rfl)
  | _ => exact fun n u cb hcb => hold hcb

theorem answer_registered {i k n : ℕ} {q : Packet} {job : Job} {o : SendOp} {reply : AMessage}
    {t : Ticket} (hd : Delivers s s' i q k n job o reply t) (h : Registered s.master) :
    Registered s'.master := by
  intro m u cb hcb
  have hcb' : (s.master.proxies m).map u = some cb := by
    rw [hd.proxies] at hcb
    exact MasterState.withProxy_callbacks (s := s.master) (m := o.minion) hcb
  obtain ⟨j, job₁, x, o₁, hj, hu, ho, hm, hx⟩ := h m u cb hcb'
  by_cases he : j = k
  · subst he
    obtain rfl := Option.some.inj (hd.tracked.job_eq.symm.trans hj)
    exact ⟨j, hd.after, x, o₁, by rw [hd.getElem?, if_pos rfl], hu, ho, hm, hx⟩
  · exact ⟨j, job₁, x, o₁, by rw [hd.getElem?, if_neg he]; exact hj, hu, ho, hm, hx⟩

theorem step_registered {a : Action} (h : Sys.step M s a = some s') (hn : Net M s)
    (hg : Careful M s a) (hr : Registered s.master) : Registered s'.master := by
  cases a with
  | getTaskArgs req uid =>
    obtain rfl := Option.some.inj h
    exact getTaskArgs_registered hr
  | advance j sendOk beyond =>
    obtain ⟨⟨master, pk⟩, hadv, rfl⟩ := Option.map_eq_some_iff.mp h
    obtain ⟨job, job', hj, hcases⟩ := MasterState.advance_cases hadv
    exact advance_registered hcases hj (hn.master.sound j job hj) (hn.planned j job hj) hr
  | execute i stack heap =>
    obtain ⟨p, f, b, he⟩ := execute_cases h
    rw [he.master]
    exact hr
  | answer i stack =>
    obtain ⟨q, k, n, job, o, reply, t, hd⟩ := answer_cases hn h
    exact answer_registered hd hr
  | injectRequest m d => exact hg.elim
  | injectAnswer m d => exact hg.elim
  | _ =>
    obtain rfl := Option.some.inj h
    exact hr

/-- No send of a request inside one chunk finds a callback under its UID. -/
theorem freeSlot_of_oneChunk (hN : 2 ≤ M.numMinions) (hn : Net M s) (hd : UidsDistinct s)
    (hr : Registered s.master)
    (hone : ∀ req ∈ s.requests, M.OneChunk req.offset.toNat req.length.toNat) (j : ℕ) :
    FreeSlot s.master j := by
  intro job hj hp o ho
  rw [Option.mem_def] at hj ho
  cases hcb : (s.master.proxies o.minion).map job.uid with
  | none => rfl
  | some cb =>
    obtain ⟨l, job₁, i, o₁, hl, hu, ho₁, hm, hi⟩ := hr _ _ _ hcb
    obtain rfl := hd.eq hj hl hu
    obtain rfl := Option.some.inj (hj.symm.trans hl)
    have hlt : i < job.sent := hi.resolve_right (by simp [hp])
    have hreq : job.req ∈ s.requests := List.mem_of_getElem? (Sys.requests_eq_some hj)
    have hplan := hn.planned l job hj
    have hops := hplan.ops_eq fun hnone => by simp [(hplan.noTicket hnone).1] at ho
    have hnd : (job.ops.map SendOp.minion).Nodup := by
      rw [hops]
      exact (minions_nodup_iff (hn.admissible l job hj).1).mpr (.inr ⟨hN, hone _ hreq⟩)
    exact absurd hm (Exchange.minion_ne hnd ho₁ ho (by omega))

theorem freeSlot_of_registered (hN : 2 ≤ M.numMinions) (hn : Net M s) (hd : UidsDistinct s)
    (hr : Registered s.master) (hin : ∀ req ∈ s.requests, Inside M c req) (j : ℕ) :
    FreeSlot s.master j :=
  freeSlot_of_oneChunk hN hn hd hr (fun req hreq => (hin req hreq).2) j

/-! ### Workloads -/

/-- Requests inside chunk `c` with distinct UIDs, each issued when all earlier ones are
replied. Minions may restart between requests, and datagrams may be lost. -/
def Restarting (M : MinionManager) (c : ℕ) (s : Sys) : Action → Prop
  | .getTaskArgs req uid => Carried M req ∧ Inside M c req ∧
      ∀ job ∈ s.master.jobs, job.completed = true ∧ job.uid ≠ uid
  | .injectRequest _ _ => False
  | .injectAnswer _ _ => False
  | .disk _ _ => False
  | .restart _ => ∀ job ∈ s.master.jobs, job.completed = true
  | _ => True

/-- A restarted minion has no data to lose. -/
def NothingStored (s : Sys) : Action → Prop
  | .restart m => (s.files m).content.all (· == 0) = true
  | _ => True

/-- The same requests over a network that loses nothing, with minions that keep running. -/
def Reordering (M : MinionManager) (c : ℕ) (s : Sys) : Action → Prop
  | .getTaskArgs req uid => Carried M req ∧ Inside M c req ∧
      ∀ job ∈ s.master.jobs, job.completed = true ∧ job.uid ≠ uid
  | .advance _ _ _ => True
  | .execute _ _ _ => True
  | .answer _ _ => True
  | _ => False

instance (M : MinionManager) (c : ℕ) (s : Sys) (a : Action) : Decidable (Restarting M c s a) :=
  match a with
  | .getTaskArgs req uid => inferInstanceAs (Decidable (Carried M req ∧ Inside M c req ∧
      ∀ job ∈ s.master.jobs, job.completed = true ∧ job.uid ≠ uid))
  | .restart _ => inferInstanceAs (Decidable (∀ job ∈ s.master.jobs, job.completed = true))
  | .injectRequest .. | .injectAnswer .. | .disk .. => inferInstanceAs (Decidable False)
  | .advance .. | .execute .. | .answer .. | .loseRequest .. | .loseAnswer .. =>
    inferInstanceAs (Decidable True)

instance (s : Sys) (a : Action) : Decidable (NothingStored s a) :=
  match a with
  | .restart m => inferInstanceAs (Decidable ((s.files m).content.all (· == 0) = true))
  | .getTaskArgs .. | .advance .. | .execute .. | .answer .. | .loseRequest .. | .loseAnswer ..
  | .injectRequest .. | .injectAnswer .. | .disk .. => inferInstanceAs (Decidable True)

instance (M : MinionManager) (c : ℕ) (s : Sys) (a : Action) : Decidable (Reordering M c s a) :=
  match a with
  | .getTaskArgs req uid => inferInstanceAs (Decidable (Carried M req ∧ Inside M c req ∧
      ∀ job ∈ s.master.jobs, job.completed = true ∧ job.uid ≠ uid))
  | .advance .. | .execute .. | .answer .. => inferInstanceAs (Decidable True)
  | .loseRequest .. | .loseAnswer .. | .injectRequest .. | .injectAnswer .. | .disk ..
  | .restart .. => inferInstanceAs (Decidable False)

theorem Reordering.restarting {a : Action} (h : Reordering M c s a) :
    Restarting M c s a ∧ NothingStored s a := by
  cases a with
  | getTaskArgs req uid => exact ⟨h, trivial⟩
  | advance j sendOk beyond => exact ⟨trivial, trivial⟩
  | execute i stack heap => exact ⟨trivial, trivial⟩
  | answer i stack => exact ⟨trivial, trivial⟩
  | _ => exact h.elim

/-- What holds along these runs. -/
structure Chunked (M : MinionManager) (c : ℕ) (s : Sys) : Prop where
  refines : ∃ k, Refines M s k
  uids : UidsDistinct s
  registered : Registered s.master
  inside : ∀ req ∈ s.requests, Inside M c req

theorem init_chunked (M : MinionManager) (c : ℕ) : Chunked M c (Sys.init M) where
  refines := ⟨0, init_refines M⟩
  uids := init_uidsDistinct M
  registered := by simp [Registered, Sys.init, MasterState.init, MinionProxy.empty]
  inside := by simp [Sys.requests, Sys.init, MasterState.init, MasterState.history]

/-- The guard of the refinement follows: bytes of the chunk are clean, and callbacks wait
under other UIDs or at the other minion. -/
theorem Chunked.inTurn (h : Chunked M c s) (hN : 2 ≤ M.numMinions) {a : Action}
    (hg : Restarting M c s a) (hz : NothingStored s a) : InTurn M s a := by
  obtain ⟨k, href⟩ := h.refines
  cases a with
  | getTaskArgs req uid =>
    obtain ⟨hcar, hin, hjobs⟩ := hg
    refine ⟨fun job hj => (hjobs job hj).1, hcar, fun _ a ha => ?_⟩
    rw [List.mem_range'_1] at ha
    exact clean_of_one_chunk (fun req' hr a' ha' => (h.inside req' hr).div_eq ha')
      (hin.div_eq ha)
  | advance j sendOk beyond =>
    exact freeSlot_of_registered hN href.net h.uids h.registered h.inside j
  | restart m => exact hz
  | injectRequest m d => exact hg
  | injectAnswer m d => exact hg
  | disk m f => exact hg
  | _ => trivial

theorem step_chunked (hN : 2 ≤ M.numMinions) {a : Action} (hg : Restarting M c s a)
    (hz : NothingStored s a) (hst : Sys.step M s a = some s') (h : Chunked M c s) :
    Chunked M c s' := by
  have hturn := h.inTurn hN hg hz
  obtain ⟨k, href⟩ := h.refines
  obtain ⟨k', -, href'⟩ := step_refines hturn hst href
  refine ⟨⟨k', href'⟩, step_uidsDistinct hst ?_ h.uids,
    step_registered hst href.net hturn.careful h.registered, ?_⟩
  · cases a with
    | getTaskArgs req uid => simpa [Sys.newRequest] using fun job hj => (hg.2.2 job hj).2
    | _ => simp [Sys.newRequest]
  · rw [Sys.step_requests hst]
    intro req hreq
    rcases List.mem_append.mp hreq with hreq | hreq
    · exact h.inside req hreq
    · cases a with
      | getTaskArgs req' uid =>
        obtain rfl : req = req' := by simpa [Sys.newRequest] using hreq
        exact hg.2.1
      | _ => simp [Sys.newRequest] at hreq

/-- Requests inside one chunk of a drive with two or more minions, each issued after the
reply of the one before: whatever is delayed and reordered, also from requests that
are replied already, the replies are those of the flat drive. A request whose sends
are done and whose datagrams are answered has been replied. -/
theorem one_chunk_flat (M : MinionManager) (c : ℕ) (as : List Action) (s : Sys)
    (hN : 2 ≤ M.numMinions) (h : run (Sys.step M) (Reordering M c) as (Sys.init M) = some s) :
    FlatReplies s ∧ ∀ (j : ℕ) (job : Job), s.master.jobs[j]? = some job →
      job.phase ≠ .aborted → Quiescent s j job → Replied s.master j job := by
  have hinv : Chunked M c s ∧ Prompt s := by
    refine run_invariant (P := fun s => Chunked M c s ∧ Prompt s) ?_ h
      ⟨init_chunked M c, init_prompt M⟩
    rintro s a s' hg hst ⟨hc, hp⟩
    obtain ⟨hr, hz⟩ := hg.restarting
    obtain ⟨k, href⟩ := hc.refines
    refine ⟨step_chunked hN hr hz hst hc, step_prompt ?_ hst href.net hp⟩
    cases a with
    | getTaskArgs req uid => trivial
    | advance j sendOk beyond => trivial
    | execute i stack heap => exact href.answers i stack heap
    | answer i stack => trivial
    | _ => exact hg.elim
  obtain ⟨hc, hp⟩ := hinv
  obtain ⟨k, href⟩ := hc.refines
  refine ⟨href.flatReplies, fun j job hj hrun hq => ?_⟩
  exact replied_of_completed href.net.master hj (quiescent_completed hp href.net hj hrun hq)
    fun k job' hk hu => hc.uids.eq hj hk hu

/-- A read that its primary has answered; then a write to the same byte, which the backup
executes before the read's second datagram. -/
def staleRead : List Action :=
  [.getTaskArgs (byteRead 1 0) 1] ++ List.replicate 5 (.advance 0 true fun _ => 0) ++
    [.execute 0 (fun _ => 0) fun _ => 0, .answer 0 fun _ => 0,
      .getTaskArgs (byteWrite 2 0 7) 2] ++ List.replicate 5 (.advance 1 true fun _ => 0) ++
    [.execute 2 (fun _ => 0) fun _ => 0, .execute 0 (fun _ => 0) fun _ => 0,
      .answer 1 fun _ => 0, .answer 0 fun _ => 0, .execute 0 (fun _ => 0) fun _ => 0,
      .answer 0 fun _ => 0]

theorem one_chunk_flat_staleRead :
    ∃ s, run (Sys.step MinionManager.smallDrive) (Reordering MinionManager.smallDrive 0) staleRead
        (Sys.init MinionManager.smallDrive) = some s ∧
      s.master.nbdOut.length = 33 ∧ FlatReplies s := by
  have hrun : (run (Sys.step MinionManager.smallDrive) (Reordering MinionManager.smallDrive 0)
      staleRead (Sys.init MinionManager.smallDrive)).map (fun s => s.master.nbdOut.length) =
        some 33 := by decide +kernel
  obtain ⟨s, hs, hlen⟩ := Option.map_eq_some_iff.mp hrun
  exact ⟨s, hs, hlen, (one_chunk_flat MinionManager.smallDrive 0 staleRead s (by decide) hs).1⟩

/-- The same with restarts between requests, as long as the file of a restarted minion
holds no data. -/
theorem restarts_flat (M : MinionManager) (c : ℕ) (as : List Action) (s : Sys)
    (hN : 2 ≤ M.numMinions)
    (h : run (Sys.step M) (fun s a => Restarting M c s a ∧ NothingStored s a) as (Sys.init M) =
      some s) : FlatReplies s := by
  have hc : Chunked M c s := run_invariant
    (fun _ _ _ hg hst hc => step_chunked hN hg.1 hg.2 hst hc) h (init_chunked M c)
  obtain ⟨k, href⟩ := hc.refines
  exact href.flatReplies

/-- A write to the first byte, a restart of minion `m`, and a read of the byte. -/
def restartBetween (m : ℕ) : List Action :=
  serveInOrder (byteWrite 1 0 5) 1 0 ++ [.restart m] ++ serveInOrder (byteRead 2 0) 2 1

theorem restarts_flat_unused_minion :
    ∃ s, run (Sys.step MinionManager.smallDrive)
        (fun s a => Restarting MinionManager.smallDrive 0 s a ∧ NothingStored s a)
        (restartBetween 2) (Sys.init MinionManager.smallDrive) = some s ∧
      s.master.nbdOut.length = 33 ∧ FlatReplies s := by
  have hrun : (run (Sys.step MinionManager.smallDrive)
      (fun s a => Restarting MinionManager.smallDrive 0 s a ∧ NothingStored s a)
      (restartBetween 2) (Sys.init MinionManager.smallDrive)).map (fun s => s.master.nbdOut.length) =
        some 33 := by decide +kernel
  obtain ⟨s, hs, hlen⟩ := Option.map_eq_some_iff.mp hrun
  exact ⟨s, hs, hlen, restarts_flat MinionManager.smallDrive 0 (restartBetween 2) s (by decide) hs⟩

/-- The primary comes back with an empty file: the acknowledged write is lost, and the
read is a success. -/
theorem restarted_primary_reads_zero :
    ∃ s, run (Sys.step MinionManager.smallDrive) (Restarting MinionManager.smallDrive 0)
        (restartBetween 0) (Sys.init MinionManager.smallDrive) = some s ∧
      s.master.nbdOut = (NbdReply.header ⟨0, [0, 0, 0, 0, 0, 0, 0, 1]⟩ ++
        (NbdReply.header ⟨0, [0, 0, 0, 0, 0, 0, 0, 2]⟩ ++ [0])).map some ∧
      contents (s.requests.take 1) 0 = 5 ∧ ¬ FlatReplies s := by
  have hrun : (run (Sys.step MinionManager.smallDrive) (Restarting MinionManager.smallDrive 0)
      (restartBetween 0) (Sys.init MinionManager.smallDrive)).map (fun s =>
        (s.master.nbdOut, s.requests.length, contents (s.requests.take 1) 0,
        decide (s.master.nbdOut = (replies (fun _ => 0) (s.requests.take 2)).map some),
        decide (s.master.nbdOut = (replies (fun _ => 0) (s.requests.take 1)).map some))) =
      some ((NbdReply.header ⟨0, [0, 0, 0, 0, 0, 0, 0, 1]⟩ ++
        (NbdReply.header ⟨0, [0, 0, 0, 0, 0, 0, 0, 2]⟩ ++ [0])).map some, 2, 5, false, false) := by
    decide +kernel
  obtain ⟨s, hs, he⟩ := Option.map_eq_some_iff.mp hrun
  simp only [Prod.mk.injEq, decide_eq_false_iff_not] at he
  obtain ⟨hout, hlen, hval, h2, h1⟩ := he
  exact ⟨s, hs, hout, hval, not_flatReplies hlen h2 h1⟩

end IoTDrive.System
