import IoTDrive.Lib.Counting
import IoTDrive.Master.SendFailure
import IoTDrive.Master.Stores
import IoTDrive.System.Degraded

/-! The drive when no new requests come. Every step that it takes by itself uses up something: a
step of a command, or a datagram. So it comes to rest, and it can only rest when all commands
have run and no datagram is left. Some minions may be cut off, as in `Degraded`. -/

namespace IoTDrive.System

open Lib Message Minion Stripe Master Drive

variable {M : MinionManager} {dead : ℕ → Bool} {s s' : Sys} {a : Action} {j : ℕ} {job job' : Job}

/-! ### What is left to do -/

/-- The steps that a request still causes: those of its command, and for each of its sends also
the execution and the answer. -/
def work (M : MinionManager) (job : Job) : ℕ :=
  match job.phase with
  | .received => 3 + 6 * (job.segments M).length
  | .queued => 2 + 6 * (job.segments M).length
  | .created => 1 + 3 * (job.ops.length - job.sent)
  | .sending => 3 * (job.ops.length - job.sent)
  | .aborted => 0

/-- The steps that the drive still takes. -/
def Sys.remaining (M : MinionManager) (s : Sys) : ℕ :=
  total (work M) s.master.jobs + (2 * s.toMinion.length + s.toMaster.length)

/-- No new request, and only a datagram that is there gets lost. -/
def Own (s : Sys) : Action → Prop
  | .getTaskArgs _ _ => False
  | .loseRequest i => i < s.toMinion.length
  | .loseAnswer i => i < s.toMaster.length
  | _ => True

instance (s : Sys) (a : Action) : Decidable (Own s a) :=
  match a with
  | .getTaskArgs .. => inferInstanceAs (Decidable False)
  | .loseRequest i => inferInstanceAs (Decidable (i < s.toMinion.length))
  | .loseAnswer i => inferInstanceAs (Decidable (i < s.toMaster.length))
  | .advance .. | .execute .. | .answer .. | .injectRequest .. | .injectAnswer .. | .disk ..
  | .restart .. => inferInstanceAs (Decidable True)

/-- The steps of the drive by itself. -/
def Works (M : MinionManager) (dead : ℕ → Bool) (s : Sys) (a : Action) : Prop :=
  Degraded M dead s a ∧ Own s a

instance (M : MinionManager) (dead : ℕ → Bool) (s : Sys) (a : Action) :
    Decidable (Works M dead s a) := inferInstanceAs (Decidable (_ ∧ _))

/-- A step of a command pays for the datagram it sends. -/
theorem advance_work {ok : Bool} {ms ms' : MasterState} {pk : Option Packet}
    (h : MasterState.Advances M ms j job ok job' ms' pk) :
    work M job' + 2 * pk.toList.length < work M job := by
  cases h with
  | onNewTask _ hp =>
    simp only [work, hp, Job.segments, Option.toList_none, List.length_nil]
    omega
  | reject _ hp _ _ => simp [work, hp]
  | create _ hp t ops ht =>
    obtain ⟨-, -, rfl⟩ := addTask_ok ht
    simp only [work, hp, fanOut_length, Job.segments, Option.toList_none, List.length_nil]
    omega
  | announce _ hp => simp [work, hp]
  | send hp o d _ ho _ _ =>
    have hlt := (List.getElem?_eq_some_iff.mp ho).1
    simp only [work, hp, Option.toList_some, List.length_singleton]
    omega
  | sendFails hp o ho =>
    have hlt := (List.getElem?_eq_some_iff.mp ho).1
    simp only [work, hp, Option.toList_none, List.length_nil]
    omega

theorem step_remaining (hw : Works M dead s a) (hst : Sys.step M s a = some s') (hn : Net M s) :
    s'.remaining M < s.remaining M := by
  obtain ⟨hg, hown⟩ := hw
  cases a with
  | getTaskArgs req uid => exact hown.elim
  | advance j sendOk beyond =>
    obtain ⟨⟨master, pk⟩, hr, rfl⟩ := Option.map_eq_some_iff.mp hst
    obtain ⟨job, job', hj, hadv⟩ := MasterState.advance_cases hr
    have hwork := advance_work hadv
    have htotal := total_set_add (f := work M) job' hj
    simp only [Sys.remaining, hadv.frame.1, List.length_append]
    omega
  | execute i stack heap =>
    obtain ⟨p, f, b, he⟩ := execute_cases hst
    have hless := List.length_eraseIdx_add_one (List.getElem?_eq_some_iff.mp he.packet).1
    have hone : (b.map fun d => (⟨p.minion, p.origin, d⟩ : Packet)).toList.length ≤ 1 := by
      cases b <;> simp
    simp only [Sys.remaining, he.master, he.toMinion, he.toMaster, List.length_append]
    omega
  | answer i stack =>
    obtain ⟨q, k, n, job, o, reply, t, hd⟩ := answer_cases hn hst
    have hless := List.length_eraseIdx_add_one (List.getElem?_eq_some_iff.mp hd.packet).1
    have hjobs : s'.master.jobs = s.master.jobs.set k hd.after := hd.jobs
    have htotal := total_set_add (f := work M) hd.after hd.tracked.job_eq
    -- the ticket is no work
    have hsame : work M hd.after = work M job := rfl
    simp only [Sys.remaining, hjobs, hd.toMinion, hd.toMaster]
    omega
  | loseRequest i =>
    obtain rfl := Option.some.inj hst
    have hless := List.length_eraseIdx_add_one hown
    simp only [Sys.remaining]
    omega
  | loseAnswer i =>
    obtain rfl := Option.some.inj hst
    have hless := List.length_eraseIdx_add_one hown
    simp only [Sys.remaining]
    omega
  | _ => exact hg.elim

/-! ### At rest -/

/-- A send of a request that fits has a minion, and its message can be encoded. -/
theorem exists_send (hplan : Planned M job) (hcar : Carried M job.req) {i : ℕ} {o : SendOp}
    (ho : job.ops[i]? = some o) (beyond : ℕ → UInt8) :
    o.minion < M.numMinions ∧ ∃ d, o.message.datagram beyond = some d := by
  obtain ⟨g, hg, hmin, hmsg⟩ := hplan.segment ho
  have hmem := List.mem_of_getElem? hg
  obtain ⟨-, hprimary, hbackup⟩ := MinionManager.segments_mem hcar.1 hmem
  refine ⟨?_, ?_⟩
  · rw [hmin]
    cases o.role with
    | primary => exact hprimary
    | backup => exact hbackup
  · rw [hmsg]
    have hfit := hcar.2.2
    cases hop : job.req.op with
    | read =>
      obtain ⟨d, hd, -⟩ := receive_datagram minionTypes
        (.readSend job.uid (UInt64.ofNat g.localOffset) (UInt64.ofNat g.length)) beyond
        (by simp [minionTypes, AMessage.getMessageType]) trivial
        (by simp [AMessage.wireSize, bufsiz])
      exact ⟨d, hd⟩
    | write =>
      rw [hop] at hfit
      exact exists_datagram hcar.1 (by rw [job.req.data_length, if_pos hop]) hfit hmem job.uid
        beyond

/-- A minion whose file is in order serves a request that fits. -/
theorem exists_served {f : FileManager} {g : StripeSegment} {o : SendOp} {p : Packet}
    (hf : f.Serves M.mbMinion) (hcar : Carried M job.req) (hg : g ∈ job.segments M)
    (hmsg : o.message = segmentMessage job.req.op job.uid job.req.data g) (hr : IsRequest p o)
    (stack heap : ℕ → UInt8) : ∃ r, serve stack heap f p.bytes = some r := by
  obtain ⟨beyond, hd⟩ := hr
  have hw := segmentWords hcar.1 hg
  have hfits := (MinionManager.segments_mem hcar.1 hg).1.fits
  have hmax := hcar.2.2 g hg
  rw [hmsg] at hd
  cases hop : job.req.op with
  | read =>
    rw [hop] at hd hmax
    obtain ⟨q, d, hserve, -⟩ := serve_readSend hf
      (by rw [hw.offset_eq, hw.length_eq]; exact hfits) (by rw [hw.length_eq]; exact hmax) hd
      stack heap
    exact ⟨_, hserve⟩
  | write =>
    rw [hop] at hd hmax
    have hlen : (slice job.req.data g).length = g.length :=
      slice_length_of_mem hcar.1 (by rw [job.req.data_length, if_pos hop]) hg
    obtain ⟨q, d, hserve, -⟩ := serve_writeSend hf (by rw [hw.length_eq]; exact hlen)
      (by rw [hw.offset_eq, hlen]; exact hfits) (by rw [hlen]; exact hmax) hd stack heap
    exact ⟨_, hserve⟩

theorem exists_advance (h : Cut M dead s) (hj : s.master.jobs[j]? = some job)
    (hc : job.commandDone = false) (beyond : ℕ → UInt8) :
    (Sys.step M s (.advance j true beyond)).isSome := by
  have hplan := h.ordered.chunks.net.planned j job hj
  have hcar := h.carried _ (List.mem_of_getElem? (Sys.requests_eq_some hj))
  have hrun := h.running j job hj
  simp only [Sys.step, Option.isSome_map, MasterState.advance, hj, Option.bind_eq_bind,
    Option.bind_some]
  cases hp : job.phase with
  | received => rfl
  | queued =>
    dsimp only
    split <;> rfl
  | created => rfl
  | sending =>
    have hne : job.sent ≠ job.ops.length := by simpa [Job.commandDone, hp] using hc
    have hlt : job.sent < job.ops.length := Nat.lt_of_le_of_ne hplan.sent_le hne
    obtain ⟨hm, d, hd⟩ := exists_send hplan hcar (List.getElem?_eq_getElem hlt) beyond
    simp [List.getElem?_eq_getElem hlt, Nat.not_le.mpr hm, hd]
  | aborted => exact absurd hp hrun

theorem exists_execute (h : Cut M dead s) {p : Packet} (hp : s.toMinion[0]? = some p)
    (stack heap : ℕ → UInt8) : (Sys.step M s (.execute 0 stack heap)).isSome := by
  have hn := h.ordered.chunks.net
  obtain ⟨j, i, job, o, htr, hr⟩ := hn.requests p (List.mem_of_getElem? hp)
  obtain ⟨g, hg, -, hmsg⟩ := (hn.planned j job htr.job_eq).segment htr.op_eq
  obtain ⟨r, hserve⟩ := exists_served (h.history.serves p.minion)
    (h.carried _ (List.mem_of_getElem? (Sys.requests_eq_some htr.job_eq)))
    (List.mem_of_getElem? hg) hmsg hr stack heap
  simp [Sys.step, Sys.execute, hp, hserve]

theorem exists_answer (hn : Net M s) {q : Packet} (hq : s.toMaster[0]? = some q)
    (stack : ℕ → UInt8) : (Sys.step M s (.answer 0 stack)).isSome := by
  obtain ⟨j, i, job, o, htr, reply, hu, hr⟩ := hn.answers q (List.mem_of_getElem? hq)
  simp [Sys.step, Sys.answer, hq, wakeUp_tracked htr hu (hr stack)]

/-- The drive rests exactly if all commands have run and no datagram is left. -/
theorem Cut.rests_iff (h : Cut M dead s) :
    (∀ a, Works M dead s a → Sys.step M s a = none) ↔
      (∀ job ∈ s.master.jobs, job.commandDone = true) ∧ s.toMinion = [] ∧ s.toMaster = [] := by
  have hn := h.ordered.chunks.net
  let idle : ℕ → UInt8 := fun _ => 0
  constructor
  · intro hrest
    refine ⟨fun job hjob => ?_, ?_, ?_⟩
    · obtain ⟨j, hj⟩ := List.mem_iff_getElem?.mp hjob
      by_contra hc
      have hsome := exists_advance h hj (by simpa using hc) idle
      rw [hrest (.advance j true idle) ⟨rfl, trivial⟩] at hsome
      cases hsome
    · cases hl : s.toMinion with
      | nil => rfl
      | cons p ps =>
        have hsome := exists_execute h (p := p) (by rw [hl]; rfl) idle idle
        rw [hrest (.execute 0 idle idle) ⟨trivial, trivial⟩] at hsome
        cases hsome
    · cases hl : s.toMaster with
      | nil => rfl
      | cons q qs =>
        have hsome := exists_answer hn (q := q) (by rw [hl]; rfl) idle
        rw [hrest (.answer 0 idle) ⟨trivial, trivial⟩] at hsome
        cases hsome
  · rintro ⟨hdone, hrequests, hanswers⟩ a ⟨hg, hown⟩
    cases a with
    | getTaskArgs req uid => exact hown.elim
    | advance j sendOk beyond =>
      by_contra hne
      obtain ⟨s', hst⟩ := Option.ne_none_iff_exists'.mp hne
      obtain ⟨⟨master, pk⟩, hr, -⟩ := Option.map_eq_some_iff.mp hst
      obtain ⟨job, job', hj, hadv⟩ := MasterState.advance_cases hr
      have hcommand := hdone job (List.mem_of_getElem? hj)
      cases hadv <;> simp_all [Job.commandDone]
    | execute i stack heap => simp [Sys.step, Sys.execute, hrequests]
    | answer i stack => simp [Sys.step, Sys.answer, hanswers]
    | loseRequest i => simp [Own, hrequests] at hown
    | loseAnswer i => simp [Own, hanswers] at hown
    | _ => exact hg.elim

/-- Every request is answered. Without new requests the steps of the drive are bounded. When it
rests, whatever has been lost on the way to and from minions that are cut off, no datagram of
any request is left, and every request that their loss spares has its reply, with success. -/
theorem requests_settle (M : MinionManager) (dead : ℕ → Bool) (as : List Action) (s : Sys)
    (hN : 2 ≤ M.numMinions) (hrun : run (Sys.step M) (Degraded M dead) as (Sys.init M) = some s)
    (own : List Action) (s' : Sys) (hown : run (Sys.step M) (Works M dead) own s = some s') :
    own.length ≤ s.remaining M ∧
      ((∀ a, Works M dead s' a → Sys.step M s' a = none) →
        ∀ (j : ℕ) (job : Job), s'.master.jobs[j]? = some job → Quiescent s' j job ∧
          (Spared M dead job.req → Replied s'.master j job ∧ Succeeded job)) := by
  have hs := run_cut hN hrun
  obtain ⟨hs', hle⟩ := run_rank (P := Cut M dead) (Q := fun _ => True) (Sys.remaining M)
    (fun s a s' hw _ hst h =>
      ⟨step_cut hN hw.1 hst h, step_remaining hw hst h.ordered.chunks.net⟩)
    hown (fun _ _ => trivial) hs
  refine ⟨by omega, fun hrest j job hj => ?_⟩
  obtain ⟨hdone, hrequests, hanswers⟩ := hs'.rests_iff.mp hrest
  have hq : Quiescent s' j job :=
    ⟨hdone job (List.mem_of_getElem? hj), by simp [hrequests, hanswers]⟩
  exact ⟨hq, fun hspared => hs'.replied hj (hs'.completed hj hq hspared)⟩

/-- A read whose primary minion is cut off, from its arrival to its reply. -/
def readCutOff : List Action :=
  let idle := fun _ : ℕ => (0 : UInt8)
  List.replicate 5 (.advance 0 true idle) ++ [.loseRequest 0, .execute 0 idle idle, .answer 0 idle]

theorem requests_settle_readCutOff :
    ∃ s s' read, run (Sys.step MinionManager.smallDrive)
        (Degraded MinionManager.smallDrive (· == 0)) [.getTaskArgs (byteRead 1 0) 1]
        (Sys.init MinionManager.smallDrive) = some s ∧
      run (Sys.step MinionManager.smallDrive) (Works MinionManager.smallDrive (· == 0)) readCutOff
        s = some s' ∧ readCutOff.length ≤ s.remaining MinionManager.smallDrive ∧
      s'.master.jobs[0]? = some read ∧ Replied s'.master 0 read ∧ Succeeded read := by
  have hfirst : (run (Sys.step MinionManager.smallDrive)
      (Degraded MinionManager.smallDrive (· == 0)) [.getTaskArgs (byteRead 1 0) 1]
      (Sys.init MinionManager.smallDrive)).isSome := by decide +kernel
  obtain ⟨s, hs⟩ := Option.isSome_iff_exists.mp hfirst
  have hboth : ((run (Sys.step MinionManager.smallDrive)
      (Degraded MinionManager.smallDrive (· == 0)) [.getTaskArgs (byteRead 1 0) 1]
      (Sys.init MinionManager.smallDrive)).bind
        (run (Sys.step MinionManager.smallDrive) (Works MinionManager.smallDrive (· == 0))
          readCutOff)).map (fun s =>
        (s.master.jobs.map (fun job => (job.req.op, job.req.offset.toNat, job.commandDone)),
          s.toMinion ++ s.toMaster)) = some ([(.read, 0, true)], []) := by decide +kernel
  rw [hs, Option.bind_some] at hboth
  obtain ⟨s', hs', he⟩ := Option.map_eq_some_iff.mp hboth
  obtain ⟨hjobs, hnet⟩ := Prod.mk.inj he
  obtain ⟨read, hlist, hread⟩ := List.map_eq_singleton_iff.mp hjobs
  simp only [Prod.mk.injEq] at hread
  obtain ⟨hrequests, hanswers⟩ := List.append_eq_nil_iff.mp hnet
  have hj : s'.master.jobs[0]? = some read := by simp [hlist]
  have hspared : Spared MinionManager.smallDrive (· == 0) read.req := by
    rw [Spared, hread.1, hread.2.1]
    exact ⟨.backup, by decide⟩
  have hcut : Cut MinionManager.smallDrive (· == 0) s' :=
    run_invariant (fun _ _ _ hw hst h => step_cut (by decide) hw.1 hst h) hs'
      (run_cut (by decide) hs)
  obtain ⟨hle, hsettled⟩ := requests_settle MinionManager.smallDrive (· == 0) _ s (by decide) hs
    readCutOff s' hs'
  have hrest := hcut.rests_iff.mpr ⟨by simp [hlist, hread.2.2], hrequests, hanswers⟩
  obtain ⟨hreplied, hok⟩ := (hsettled hrest 0 read hj).2 hspared
  exact ⟨s, s', read, hs, hs', hle, hj, hreplied, hok⟩

end IoTDrive.System
