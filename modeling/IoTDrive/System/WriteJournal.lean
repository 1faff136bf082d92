import IoTDrive.Lib.Journal
import IoTDrive.System.OneChunk

/-! The journal of concurrent writes to one chunk. The writes may be outstanding at the
same time. The file of a minion is the replay of the blocks it has executed; every
block comes from one send, no send is executed twice, and what has been answered has
been executed. -/

namespace IoTDrive.System

open Lib Message Minion Stripe Master Drive

variable {M : MinionManager} {s s' : Sys} {c : ℕ}

/-- The blocks a minion has written, oldest first, under the UIDs of their requests. -/
def Sys.writesAt (s : Sys) (m : ℕ) : List (Block UID UInt8) :=
  s.executed.filterMap fun e =>
    match e with
    | (n, .write uid offset length buffer) =>
      if n = m then some ⟨uid, offset, buffer.take length⟩ else none
    | (_, .read ..) => none

/-- Writes inside chunk `c` with distinct UIDs, at any time, over a network that delivers
every datagram once. -/
def Concurrent (M : MinionManager) (c : ℕ) (s : Sys) : Action → Prop
  | .getTaskArgs req uid => req.op = .write ∧ Admissible M req ∧ Inside M c req ∧
      ∀ job ∈ s.master.jobs, job.uid ≠ uid
  | .advance _ _ _ => True
  | .execute _ _ _ => True
  | .answer _ _ => True
  | _ => False

instance (M : MinionManager) (c : ℕ) (s : Sys) (a : Action) : Decidable (Concurrent M c s a) :=
  match a with
  | .getTaskArgs req uid => inferInstanceAs (Decidable (req.op = .write ∧ Admissible M req ∧
      Inside M c req ∧ ∀ job ∈ s.master.jobs, job.uid ≠ uid))
  | .advance .. | .execute .. | .answer .. => inferInstanceAs (Decidable True)
  | .loseRequest .. | .loseAnswer .. | .injectRequest .. | .injectAnswer .. | .disk ..
  | .restart .. => inferInstanceAs (Decidable False)

/-- The backup of chunk `c` has executed overlapping writes in the order of the primary. -/
def SameOrder (M : MinionManager) (c : ℕ) (s : Sys) : Prop :=
  ∀ b b' : Block UID UInt8, b.Overlaps b' → [b, b'].Sublist (s.writesAt c) →
    [b, b'].Sublist (s.writesAt (getBackupIndex c M.numMinions))

/-- The block of a write inside one chunk. -/
def blockOf (M : MinionManager) (job : Job) : Block UID UInt8 :=
  ⟨job.uid, job.req.offset.toNat % M.mbMinion, job.req.data⟩

/-! ### The journal -/

/-- The requests are writes inside the chunk, with distinct UIDs. -/
structure Writes (M : MinionManager) (c : ℕ) (s : Sys) : Prop where
  net : Net M s
  uids : UidsDistinct s
  registered : Registered s.master
  requests : ∀ req ∈ s.requests, req.op = .write ∧ Admissible M req ∧ Inside M c req

/-- A completed ticket has every segment resolved. -/
def Resolved (s : Sys) : Prop :=
  ∀ (j : ℕ) (job : Job) (t : Ticket), s.master.jobs[j]? = some job → job.ticket = some t →
    t.completed = true → t.segments.all (SegmentState.isSegmentResolved t.op) = true

/-- The files are the replays of what the minions have executed; a block comes from one
send, which is executed once. -/
structure Journal (M : MinionManager) (s : Sys) : Prop where
  serves : ∀ m, (s.files m).Serves M.mbMinion
  content : ∀ m, (s.files m).content = replay 0 (List.replicate M.mbMinion 0) (s.writesAt m)
  nodup : ∀ m, ((s.writesAt m).map Block.key).Nodup
  source : ∀ m, ∀ b ∈ s.writesAt m, ∃ (j : ℕ) (job : Job) (i : ℕ) (o : SendOp),
    s.master.jobs[j]? = some job ∧ i < job.sent ∧ job.ops[i]? = some o ∧ o.minion = m ∧
      b = blockOf M job
  fresh : ∀ p ∈ s.toMinion, ∀ (j i : ℕ) (job : Job), p.origin = some (j, i) →
    s.master.jobs[j]? = some job → ∀ b ∈ s.writesAt p.minion, b.key ≠ job.uid
  done : ∀ (j i : ℕ) (job : Job) (o : SendOp), s.master.jobs[j]? = some job →
    job.ops[i]? = some o → Executed s j i job o → blockOf M job ∈ s.writesAt o.minion

theorem Writes.job (h : Writes M c s) {j : ℕ} {job : Job} (hj : s.master.jobs[j]? = some job) :
    job.req.op = .write ∧ Admissible M job.req ∧ Inside M c job.req :=
  h.requests job.req (List.mem_of_getElem? (Sys.requests_eq_some hj))

theorem Writes.segments (h : Writes M c s) {j : ℕ} {job : Job}
    (hj : s.master.jobs[j]? = some job) :
    job.segments M = [⟨job.req.offset.toNat % M.mbMinion, job.req.length.toNat, 0, c,
      getBackupIndex c M.numMinions⟩] := by
  obtain ⟨-, hreq, hdiv, hone⟩ := h.job hj
  rw [Job.segments, hone.segments hreq.1, hdiv]

/-- A request names two minions. -/
theorem Writes.minions_nodup (h : Writes M c s) (hN : 2 ≤ M.numMinions) {j : ℕ} {job : Job}
    (hj : s.master.jobs[j]? = some job) : (job.ops.map SendOp.minion).Nodup := by
  obtain ⟨-, hreq, -, hone⟩ := h.job hj
  have hplan := h.net.planned j job hj
  by_cases ht : job.ticket = none
  · simp [(hplan.noTicket ht).1]
  · rw [hplan.ops_eq ht]
    exact (minions_nodup_iff hreq.1).mpr (.inr ⟨hN, hone⟩)

theorem Writes.careful (h : Writes M c s) (hN : 2 ≤ M.numMinions) {a : Action}
    (hg : Concurrent M c s a) : Careful M s a := by
  cases a with
  | getTaskArgs req uid =>
    exact ⟨hg.2.1, fun job hj he => absurd he (hg.2.2.2 job hj)⟩
  | advance j sendOk beyond =>
    exact freeSlot_of_registered hN h.net h.uids h.registered
      (fun req hr => (h.requests req hr).2.2) j
  | injectRequest m d => exact hg
  | injectAnswer m d => exact hg
  | _ => trivial

theorem step_writes (hN : 2 ≤ M.numMinions) {a : Action} (hg : Concurrent M c s a)
    (hst : Sys.step M s a = some s') (h : Writes M c s) : Writes M c s' := by
  have hcare := h.careful hN hg
  refine ⟨step_net hcare hst h.net, step_uidsDistinct hst ?_ h.uids,
    step_registered hst h.net hcare h.registered, ?_⟩
  · cases a with
    | getTaskArgs req uid => simpa [Sys.newRequest] using hg.2.2.2
    | _ => simp [Sys.newRequest]
  · rw [Sys.step_requests hst]
    intro req hreq
    rcases List.mem_append.mp hreq with hreq | hreq
    · exact h.requests req hreq
    · cases a with
      | getTaskArgs req' uid =>
        obtain rfl : req = req' := by simpa [Sys.newRequest] using hreq
        exact ⟨hg.1, hg.2.1, hg.2.2.1⟩
      | _ => simp [Sys.newRequest] at hreq

/-! ### Steps -/

theorem Net.step_resolved {a : Action} (hn : Net M s) (hst : Sys.step M s a = some s')
    (h : Resolved s) : Resolved s' := by
  intro j job t hj ht hc
  cases a with
  | getTaskArgs req uid =>
    obtain rfl := Option.some.inj hst
    rcases MasterState.jobs_getTaskArgs.mp hj with hj | ⟨-, rfl⟩
    · exact h j job t hj ht hc
    · cases ht
  | advance k sendOk beyond =>
    obtain ⟨⟨master, pk⟩, hr, rfl⟩ := Option.map_eq_some_iff.mp hst
    obtain ⟨job₁, job₂, hk, hadv⟩ := MasterState.advance_cases hr
    rw [(hadv.quiet hk hn.master).getElem? hk] at hj
    split_ifs at hj with he
    · obtain rfl := Option.some.inj hj
      cases hadv with
      | create _ _ t₁ ops hadd =>
        obtain ⟨-, rfl, -⟩ := addTask_ok hadd
        obtain rfl := Option.some.inj ht
        cases hc
      | announce _ _ =>
        obtain ⟨t₀, ht₀, rfl⟩ := Option.map_eq_some_iff.mp ht
        exact h k job₁ t₀ hk ht₀ hc
      | _ => exact h k job₁ t hk ht hc
    · exact h j job t hj ht hc
  | execute i stack heap =>
    obtain ⟨p, f, b, he⟩ := execute_cases hst
    rw [he.master] at hj
    exact h j job t hj ht hc
  | answer i stack =>
    obtain ⟨q, k, n, job₁, o, reply, t₀, hd⟩ := answer_cases hn hst
    rw [hd.getElem?] at hj
    split_ifs at hj with he
    · obtain rfl := Option.some.inj hj
      obtain rfl := Option.some.inj ht
      rw [(Ticket.onMirrorResponse_frame t₀ o.segIdx o.role (some reply)).2.1]
      cases hc₀ : t₀.completed with
      | true =>
        rw [Ticket.onMirrorResponse_completed hc₀]
        exact h k job₁ t₀ hd.tracked.job_eq hd.ticket hc₀
      | false =>
        exact hd.resolved (by simp [Job.completed, hd.ticket, hc₀]) (by simpa [Job.completed] using hc)
    · exact h j job t hj ht hc
  | _ =>
    obtain rfl := Option.some.inj hst
    exact h j job t hj ht hc

theorem getTaskArgs_journal (h : Journal M s) (hn : Net M s) {req : Request} {uid : UID} :
    Journal M { s with master := s.master.getTaskArgs req uid } := by
  refine ⟨h.serves, h.content, h.nodup, fun m b hb => ?_, fun p hp j i job horig hj => ?_,
    fun j i job o hj ho hex => ?_⟩
  · obtain ⟨j, job, i, o, hj, hrest⟩ := h.source m b hb
    exact ⟨j, job, i, o, MasterState.jobs_getTaskArgs.mpr (.inl hj), hrest⟩
  · -- the request of a datagram in flight is an older one
    obtain ⟨job₁, o, ht⟩ := hn.tracked (List.mem_append_left _ hp) horig
    have hj₁ : (s.master.getTaskArgs req uid).jobs[j]? = some job₁ :=
      MasterState.jobs_getTaskArgs.mpr (.inl ht.job_eq)
    obtain rfl := Option.some.inj (hj₁.symm.trans hj)
    exact h.fresh p hp j i job₁ horig ht.job_eq
  · rcases MasterState.jobs_getTaskArgs.mp hj with hj | ⟨-, rfl⟩
    · exact h.done j i job o hj ho hex
    · cases ho

theorem advance_journal (h : Journal M s) (hw : Writes M c s) (hN : 2 ≤ M.numMinions) {j : ℕ}
    {ok : Bool} {master : MasterState} {pk : Option Packet} {job job' : Job}
    (hj : s.master.jobs[j]? = some job)
    (ha : MasterState.Advances M s.master j job ok job' master pk) :
    Journal M { s with master := master, toMinion := s.toMinion ++ pk.toList } := by
  have hn := hw.net
  have hquiet := ha.quiet hj hn.master
  have hget := hquiet.getElem? hj
  have hblock : blockOf M job' = blockOf M job := by rw [blockOf, hquiet.uid, hquiet.req]; rfl
  refine ⟨h.serves, h.content, h.nodup, fun m b hb => ?_, fun p hp l i job₁ horig hl => ?_,
    fun l i job₁ o hl ho hex => ?_⟩
  · obtain ⟨l, job₁, i, o, hl, hi, ho, hm, rfl⟩ := h.source m b hb
    by_cases he : l = j
    · subst he
      obtain rfl := Option.some.inj (hj.symm.trans hl)
      have hops := advance_ops ha (hn.master.sound l job hj) (hn.planned l job hj) (by omega)
      exact ⟨l, job', i, o, by rw [hget, if_pos rfl], lt_of_lt_of_le hi ha.frame.2.2.2,
        hops ▸ ho, hm, hblock.symm⟩
    · exact ⟨l, job₁, i, o, by rw [hget, if_neg he]; exact hl, hi, ho, hm, rfl⟩
  · rw [hget] at hl
    rcases List.mem_append.mp hp with hp | hp
    · split_ifs at hl with he
      · obtain rfl := Option.some.inj hl
        subst he
        rw [hquiet.uid]
        exact h.fresh p hp l i job horig hj
      · exact h.fresh p hp l i job₁ horig hl
    · -- a block under this UID would come from an earlier send to another minion
      rw [Option.mem_toList] at hp
      subst hp
      cases ha with
      | send _ o d beyond ho _ _ =>
        simp only [Option.some.injEq, Prod.mk.injEq] at horig
        obtain ⟨rfl, rfl⟩ := horig
        rw [if_pos rfl] at hl
        obtain rfl := Option.some.inj hl
        intro b hb hkey
        obtain ⟨k, job₂, i, o₂, hk, hi, ho₂, hm, rfl⟩ := h.source o.minion b hb
        obtain rfl := hw.uids.eq hj hk hkey
        obtain rfl := Option.some.inj (hj.symm.trans hk)
        exact Exchange.minion_ne (hw.minions_nodup hN hj) ho₂ ho (by omega) hm
  · rw [hget] at hl
    split_ifs at hl with he
    · obtain rfl := Option.some.inj hl
      subst he
      obtain ⟨ho', hex'⟩ := advance_executed hn hj ha ho hex
      rw [hblock]
      exact h.done l i job o hj ho' hex'
    · exact h.done l i job₁ o hl ho hex

theorem answer_journal (h : Journal M s) (hn : Net M s) {i k n : ℕ} {q : Packet} {job : Job}
    {o : SendOp} {reply : AMessage} {t : Ticket} (hd : Delivers s s' i q k n job o reply t) :
    Journal M s' := by
  have hwrites : ∀ m, s'.writesAt m = s.writesAt m := fun m => by
    rw [Sys.writesAt, Sys.writesAt, hd.executed]
  refine ⟨hd.files ▸ h.serves, fun m => ?_, fun m => ?_, fun m b hb => ?_,
    fun p hp l x job₁ horig hl b hb => ?_, fun l x job₁ o₁ hl ho hex => ?_⟩
  · rw [hd.files, hwrites]
    exact h.content m
  · rw [hwrites]
    exact h.nodup m
  · rw [hwrites] at hb
    obtain ⟨l, job₁, x, o₁, hl, hx, ho, hm, rfl⟩ := h.source m b hb
    by_cases he : l = k
    · subst he
      obtain rfl := Option.some.inj (hd.tracked.job_eq.symm.trans hl)
      exact ⟨l, hd.after, x, o₁, by rw [hd.getElem?, if_pos rfl], hx, ho, hm, rfl⟩
    · exact ⟨l, job₁, x, o₁, by rw [hd.getElem?, if_neg he]; exact hl, hx, ho, hm, rfl⟩
  · rw [hd.toMinion] at hp
    rw [hwrites] at hb
    rw [hd.getElem?] at hl
    split_ifs at hl with he
    · obtain rfl := Option.some.inj hl
      subst he
      exact h.fresh p hp l x job horig hd.tracked.job_eq b hb
    · exact h.fresh p hp l x job₁ horig hl b hb
  · rw [hwrites]
    rw [hd.getElem?] at hl
    split_ifs at hl with he
    · obtain rfl := Option.some.inj hl
      subst he
      exact h.done l x job o₁ hd.tracked.job_eq ho (hd.executed_before hn ho hex)
    · exact h.done l x job₁ o₁ hl ho
        (hex.of_subset hd.mem_toMaster)

section Execute
variable {i n j : ℕ} {stack heap : ℕ → UInt8} {p : Packet} {f : FileManager}
  {b : Option (List UInt8)} {job : Job} {o : SendOp}

/-- A datagram of a write inside one chunk that is too long is refused; the block of any other is
added to the journal of its minion. -/
theorem Executes.journals (he : Executes s s' i stack heap p f b) (hn : Net M s)
    (hserves : (s.files p.minion).Serves M.mbMinion) (htr : Tracked s.master p j n job o)
    (hr : IsRequest p o) (hop : job.req.op = .write)
    (hone : M.OneChunk job.req.offset.toNat job.req.length.toNat) :
    s'.executed = s.executed ∧ f = s.files p.minion ∧ b = none ∨
      (∀ m, s'.writesAt m = s.writesAt m ++ if p.minion = m then [blockOf M job] else []) ∧
        f.content = writeAt 0 (s.files p.minion).content (blockOf M job).pos
          (blockOf M job).values ∧ f.Serves M.mbMinion := by
  have hreq := hn.admissible j job htr.job_eq
  obtain ⟨g, hg, -, hmsg⟩ := (hn.planned j job htr.job_eq).segment htr.op_eq
  have hmem := List.mem_of_getElem? hg
  have hwords := segmentWords hreq.1 hmem
  have hlen : (slice job.req.data g).length = g.length :=
    slice_length_of_mem hreq.1 (by rw [job.req.data_length, if_pos hop]) hmem
  -- the one segment carries all data of the request
  have hsegs : job.segments M = _ := hone.segments hreq.1
  obtain ⟨hoff, hdata⟩ : g.localOffset = job.req.offset.toNat % M.mbMinion ∧
      slice job.req.data g = job.req.data := by
    rw [hsegs, List.mem_singleton] at hmem
    refine ⟨by rw [hmem], ?_⟩
    rw [hmem, slice, List.drop_zero, List.take_of_length_le]
    rw [job.req.data_length, if_pos hop]
  rcases Nat.lt_or_ge maxWriteLength g.length with hbig | hmax
  · left
    obtain ⟨beyond, hd⟩ := hr
    rw [hmsg, hop] at hd
    have hlt : g.length < 2 ^ 32 := by
      have := (MinionManager.segments_mem hreq.1 hmem).1.within
      have := job.req.length.toNat_lt
      omega
    have hargs := getTaskArgs_oversize hwords hlen hbig hlt hd stack
    have hserved := he.served
    simp only [serve, hargs, Option.some.injEq, Prod.mk.injEq] at hserved
    refine ⟨?_, hserved.1.symm, hserved.2.symm⟩
    rw [he.executed, Sys.taskOf, hargs, List.append_nil]
  · right
    have hcar : Carried M job.req := by
      refine ⟨hreq.1, hreq.2.1, fun g' hg' => ?_⟩
      rw [hop]
      rw [hsegs, List.mem_singleton] at hmem
      rw [hone.segments hreq.1, List.mem_singleton] at hg'
      rw [hg', ← hmem]
      exact hmax
    obtain ⟨hcontent, hserves', -⟩ := served_write hserves hcar hop hmem hmsg hr he.served
    rw [hoff, hdata] at hcontent
    refine ⟨fun m => ?_, hcontent, hserves'⟩
    obtain ⟨beyond, hd⟩ := hr
    rw [hmsg, hop] at hd
    have hargs := getTaskArgs_writeSend (by rw [hlen, hwords.length_eq]) (by rw [hlen]; exact hmax)
      hd stack
    rw [hwords.offset_eq, hwords.length_eq] at hargs
    have htake : (slice job.req.data g ++ [beyond (slice job.req.data g).length]).take g.length =
        job.req.data := by rw [← hlen, List.take_left' rfl, hdata]
    rw [Sys.writesAt, he.executed, List.filterMap_append, ← Sys.writesAt]
    congr 1
    simp only [Sys.taskOf, hargs, List.filterMap_cons, List.filterMap_nil, htake]
    split_ifs with hm
    · rw [hoff]
      rfl
    · rfl

theorem Executes.writesAt (he : Executes s s' i stack heap p f b) (hw : Writes M c s)
    (hserves : (s.files p.minion).Serves M.mbMinion) (htr : Tracked s.master p j n job o)
    (hr : IsRequest p o) :
    s'.executed = s.executed ∧ f = s.files p.minion ∧ b = none ∨
      (∀ m, s'.writesAt m = s.writesAt m ++ if p.minion = m then [blockOf M job] else []) ∧
        f.content = writeAt 0 (s.files p.minion).content (blockOf M job).pos
          (blockOf M job).values ∧ f.Serves M.mbMinion :=
  he.journals hw.net hserves htr hr (hw.job htr.job_eq).1 (hw.job htr.job_eq).2.2.2

/-- Nothing happens but that a datagram is gone. -/
theorem refused_journal (h : Journal M s) (he : Executes s s' i stack heap p f b)
    (hex : s'.executed = s.executed) (hf : f = s.files p.minion) (hb : b = none) :
    Journal M s' := by
  have hwrites : ∀ m, s'.writesAt m = s.writesAt m := fun m => by
    rw [Sys.writesAt, Sys.writesAt, hex]
  have hfiles : s'.files = s.files := by rw [he.files, hf, Function.update_eq_self]
  have hmaster : s'.toMaster = s.toMaster := by simp [he.toMaster, hb]
  refine ⟨hfiles ▸ h.serves, fun m => ?_, fun m => ?_, fun m x hx => ?_,
    fun q hq l x job₁ horig hl y hy => ?_, fun l x job₁ o₁ hl ho hdone => ?_⟩
  · rw [hfiles, hwrites]
    exact h.content m
  · rw [hwrites]
    exact h.nodup m
  · rw [hwrites] at hx
    rw [he.master]
    exact h.source m x hx
  · rw [he.toMinion] at hq
    rw [he.master] at hl
    rw [hwrites] at hy
    exact h.fresh q (List.mem_of_mem_eraseIdx hq) l x job₁ horig hl y hy
  · rw [he.master] at hl
    rw [hwrites]
    rw [Executed, hmaster] at hdone
    exact h.done l x job₁ o₁ hl ho hdone

/-- Another datagram of the same request goes to another minion. -/
theorem Writes.other_minion (hw : Writes M c s) (hN : 2 ≤ M.numMinions)
    (he : Executes s s' i stack heap p f b) {j n x : ℕ} {job : Job} {o : SendOp} {q : Packet}
    (htr : Tracked s.master p j n job o) (hq : q ∈ s.toMinion.eraseIdx i)
    (horig : q.origin = some (j, x)) : q.minion ≠ p.minion := by
  have hn := hw.net
  obtain ⟨job₂, o₂, htr₂⟩ :=
    hn.tracked (List.mem_append_left _ (List.mem_of_mem_eraseIdx hq)) horig
  obtain rfl := Option.some.inj (htr.job_eq.symm.trans htr₂.job_eq)
  have hnd := hn.nodup
  rw [List.map_append, List.nodup_append] at hnd
  have hne := origin_ne_of_mem_eraseIdx hnd.1 he.packet hq
  have hx : x ≠ n := fun hx => hne (by rw [htr.origin, horig, hx])
  intro hm
  exact Exchange.minion_ne (hw.minions_nodup hN htr.job_eq) htr₂.op_eq htr.op_eq hx
    (by rw [← htr₂.minion, ← htr.minion, hm])

theorem execute_journal (h : Journal M s) (hw : Writes M c s) (hN : 2 ≤ M.numMinions)
    (he : Executes s s' i stack heap p f b) : Journal M s' := by
  have hn := hw.net
  obtain ⟨j, n, job, o, htr, hr⟩ := hn.requests p (List.mem_of_getElem? he.packet)
  rcases he.writesAt hw (h.serves _) htr hr with ⟨hex, hf, hb⟩ | ⟨hwrites, hcontent, hserves⟩
  · exact refused_journal h he hex hf hb
  have hmine : s'.writesAt p.minion = s.writesAt p.minion ++ [blockOf M job] := by
    rw [hwrites, if_pos rfl]
  have hother : ∀ {m : ℕ}, m ≠ p.minion → s'.writesAt m = s.writesAt m := fun hm => by
    rw [hwrites, if_neg hm.symm, List.append_nil]
  have hsub : ∀ {m : ℕ} {x : Block UID UInt8}, x ∈ s.writesAt m → x ∈ s'.writesAt m :=
    fun {m} _ hx => by
      rw [hwrites]
      exact List.mem_append_left _ hx
  have hfresh := h.fresh p (List.mem_of_getElem? he.packet) j n job htr.origin htr.job_eq
  constructor
  case serves =>
    rw [he.files]
    exact FileManager.serves_update h.serves hserves
  case content =>
    intro m
    rw [he.files]
    by_cases hm : m = p.minion
    · subst hm
      rw [Function.update_self, hcontent, hmine, replay_append_singleton, h.content]
    · rw [Function.update_of_ne hm, hother hm]
      exact h.content m
  case nodup =>
    intro m
    by_cases hm : m = p.minion
    · subst hm
      rw [hmine, List.map_append, List.map_singleton]
      refine List.Nodup.append (h.nodup _) (List.nodup_singleton _) ?_
      intro u hu hu'
      obtain ⟨x, hx, rfl⟩ := List.mem_map.mp hu
      exact hfresh x hx (List.mem_singleton.mp hu')
    · rw [hother hm]
      exact h.nodup m
  case source =>
    intro m x hx
    rw [he.master]
    rw [hwrites] at hx
    rcases List.mem_append.mp hx with hx | hx
    · exact h.source m x hx
    · split_ifs at hx with hm
      · exact ⟨j, job, n, o, htr.job_eq, htr.sent, htr.op_eq, by rw [← hm, htr.minion],
          List.mem_singleton.mp hx⟩
      · cases hx
  case fresh =>
    intro q hq l x job₁ horig hl y hy
    rw [he.master] at hl
    rw [he.toMinion] at hq
    rw [hwrites] at hy
    have hq' := List.mem_of_mem_eraseIdx hq
    rcases List.mem_append.mp hy with hy | hy
    · exact h.fresh q hq' l x job₁ horig hl y hy
    · split_ifs at hy with hm
      · rw [List.mem_singleton.mp hy]
        intro huid
        obtain rfl := hw.uids.eq hl htr.job_eq huid
        exact hw.other_minion hN he htr hq horig hm.symm
      · cases hy
  case done =>
    intro l x job₁ o₁ hl ho hex
    rw [he.master] at hl
    rcases hex with ⟨q, hq, horig⟩ | hslot
    · rcases he.mem_toMaster hq with hq | ⟨d, -, rfl⟩
      · exact hsub (h.done l x job₁ o₁ hl ho (.inl ⟨q, hq, horig⟩))
      · -- the answer of this execution
        simp only [htr.origin, Option.some.injEq, Prod.mk.injEq] at horig
        obtain ⟨rfl, rfl⟩ := horig
        obtain rfl := Option.some.inj (htr.job_eq.symm.trans hl)
        obtain rfl := Option.some.inj (htr.op_eq.symm.trans ho)
        rw [← htr.minion, hmine]
        exact List.mem_append_right _ (List.mem_singleton.mpr rfl)
    · exact hsub (h.done l x job₁ o₁ hl ho (.inr hslot))

end Execute

end IoTDrive.System
