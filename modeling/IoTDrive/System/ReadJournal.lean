import IoTDrive.System.WriteJournal

/-! The journal of reads and writes. Requests lie inside one chunk each, but anywhere on
the drive, any number of them may be outstanding, and the network may lose what it likes.
The file of a minion is the replay of the blocks it has executed; an answer to a read shows
the replay of a part of that journal. How old this part may be is said by a base: an
earlier moment of the run, with the number of requests and the journals at that time.
Requests from later on see at least the base. -/

namespace IoTDrive.System

open Lib Message Minion Stripe Master Drive

variable {M : MinionManager} {s s' : Sys}

/-- Requests inside one chunk each, with distinct UIDs, at any time, over a network that may lose
datagrams but makes none. -/
def Lossy (M : MinionManager) (s : Sys) : Action → Prop
  | .getTaskArgs req uid => Admissible M req ∧ M.OneChunk req.offset.toNat req.length.toNat ∧
      ∀ job ∈ s.master.jobs, job.uid ≠ uid
  | .injectRequest _ _ => False
  | .injectAnswer _ _ => False
  | .disk _ _ => False
  | .restart _ => False
  | _ => True

instance (M : MinionManager) (s : Sys) (a : Action) : Decidable (Lossy M s a) :=
  match a with
  | .getTaskArgs req uid => inferInstanceAs (Decidable (Admissible M req ∧
      M.OneChunk req.offset.toNat req.length.toNat ∧ ∀ job ∈ s.master.jobs, job.uid ≠ uid))
  | .advance .. | .execute .. | .answer .. | .loseRequest .. | .loseAnswer .. =>
    inferInstanceAs (Decidable True)
  | .injectRequest .. | .injectAnswer .. | .disk .. | .restart .. =>
    inferInstanceAs (Decidable False)

/-! ### Requests inside chunks -/

/-- The requests lie inside one chunk each, and have distinct UIDs. -/
structure Local (M : MinionManager) (s : Sys) : Prop where
  net : Net M s
  uids : UidsDistinct s
  registered : Registered s.master
  oneChunk : ∀ req ∈ s.requests, M.OneChunk req.offset.toNat req.length.toNat

theorem init_local (M : MinionManager) : Local M (Sys.init M) where
  net := init_net M
  uids := init_uidsDistinct M
  registered := by simp [Registered, Sys.init, MasterState.init, MinionProxy.empty]
  oneChunk := by simp [Sys.requests, Sys.init, MasterState.init, MasterState.history]

theorem Local.careful (h : Local M s) (hN : 2 ≤ M.numMinions) {a : Action} (hg : Lossy M s a) :
    Careful M s a := by
  cases a with
  | getTaskArgs req uid => exact ⟨hg.1, fun job hj he => absurd he (hg.2.2 job hj)⟩
  | advance j sendOk beyond =>
    exact freeSlot_of_oneChunk hN h.net h.uids h.registered h.oneChunk j
  | injectRequest m d => exact hg
  | injectAnswer m d => exact hg
  | _ => trivial

theorem step_local (hN : 2 ≤ M.numMinions) {a : Action} (hg : Lossy M s a)
    (hst : Sys.step M s a = some s') (h : Local M s) : Local M s' := by
  have hcare := h.careful hN hg
  refine ⟨step_net hcare hst h.net, step_uidsDistinct hst ?_ h.uids,
    step_registered hst h.net hcare h.registered, ?_⟩
  · cases a with
    | getTaskArgs req uid => simpa [Sys.newRequest] using hg.2.2
    | _ => simp [Sys.newRequest]
  · rw [Sys.step_requests hst]
    intro req hreq
    rcases List.mem_append.mp hreq with hreq | hreq
    · exact h.oneChunk req hreq
    · cases a with
      | getTaskArgs req' uid =>
        obtain rfl : req = req' := by simpa [Sys.newRequest] using hreq
        exact hg.2.1
      | _ => simp [Sys.newRequest] at hreq

theorem Local.job (h : Local M s) {j : ℕ} {job : Job} (hj : s.master.jobs[j]? = some job) :
    Admissible M job.req ∧ M.OneChunk job.req.offset.toNat job.req.length.toNat :=
  ⟨h.net.admissible j job hj, h.oneChunk _ (List.mem_of_getElem? (Sys.requests_eq_some hj))⟩

theorem Local.segments (h : Local M s) {j : ℕ} {job : Job} (hj : s.master.jobs[j]? = some job) :
    job.segments M = [⟨job.req.offset.toNat % M.mbMinion, job.req.length.toNat, 0,
      job.req.offset.toNat / M.mbMinion,
      getBackupIndex (job.req.offset.toNat / M.mbMinion) M.numMinions⟩] :=
  (h.job hj).2.segments (h.job hj).1.1

/-- The send of a request goes to the minion of its role. -/
theorem Local.minion_eq (h : Local M s) {j i : ℕ} {job : Job} {o : SendOp}
    (hj : s.master.jobs[j]? = some job) (ho : job.ops[i]? = some o) :
    o.segIdx = 0 ∧ o.minion = M.minionOf o.role job.req.offset.toNat := by
  obtain ⟨g, hg, hm, -⟩ := (h.net.planned j job hj).segment ho
  rw [h.segments hj] at hg
  rw [List.getElem?_singleton] at hg
  split_ifs at hg with hidx
  obtain rfl := Option.some.inj hg
  refine ⟨hidx, ?_⟩
  rw [hm]
  cases o.role <;> rfl

/-! ### The journal -/

/-- An empty file of a minion. -/
def emptyFile (M : MinionManager) : List UInt8 := List.replicate M.mbMinion 0

/-- What a minion answers to a read after some blocks. -/
def readAnswer (M : MinionManager) (job : Job) (pre : List (Block UID UInt8)) : AMessage :=
  .readReceive job.uid 1 (UInt64.ofNat job.req.length.toNat)
    (some (((replay 0 (emptyFile M) pre).drop (job.req.offset.toNat % M.mbMinion)).take
      job.req.length.toNat))

/-- A moment of a run: how many requests there were, and what the minions had executed. -/
structure Moment where
  issued : ℕ
  journal : ℕ → List (Block UID UInt8)

def Sys.moment (s : Sys) : Moment := ⟨s.master.jobs.length, s.writesAt⟩

/-- Before anything has happened. -/
def Moment.start : Moment := ⟨0, fun _ => []⟩

/-- A part of the journal of a minion that request number `j` may see: all of the base, if it
was issued after that. -/
def Seen (base : Moment) (s : Sys) (j m : ℕ) (pre : List (Block UID UInt8)) : Prop :=
  pre <+: s.writesAt m ∧ (base.issued ≤ j → base.journal m <+: pre)

/-- The files are the replays of what the minions have executed, which comes from the
writes; an executed write is in the journals, and an answered read shows a part of them. -/
structure History (base : Moment) (M : MinionManager) (s : Sys) : Prop where
  serves : ∀ m, (s.files m).Serves M.mbMinion
  content : ∀ m, (s.files m).content = replay 0 (emptyFile M) (s.writesAt m)
  later : ∀ m, base.journal m <+: s.writesAt m
  source : ∀ m, ∀ b ∈ s.writesAt m, ∃ (j : ℕ) (job : Job) (r : MirrorRole),
    s.master.jobs[j]? = some job ∧ job.req.op = .write ∧
      m = M.minionOf r job.req.offset.toNat ∧ b = blockOf M job
  stored : ∀ (j i : ℕ) (job : Job) (o : SendOp), s.master.jobs[j]? = some job →
    job.req.op = .write → job.ops[i]? = some o → Executed s j i job o →
      blockOf M job ∈ s.writesAt o.minion
  answers : ∀ q ∈ s.toMaster, ∀ (j i : ℕ) (job : Job) (o : SendOp), q.origin = some (j, i) →
    s.master.jobs[j]? = some job → job.req.op = .read → job.ops[i]? = some o →
      ∃ pre, Seen base s j o.minion pre ∧
        ∀ stack, receive masterTypes stack q.bytes = .message (readAnswer M job pre)
  recorded : ∀ (j i : ℕ) (job : Job) (t : Ticket) (o : SendOp) (g : SegmentState),
    s.master.jobs[j]? = some job → job.req.op = .read → job.ticket = some t →
    job.ops[i]? = some o → t.segments[o.segIdx]? = some g → g.done o.role = true →
      ∃ pre, Seen base s j o.minion pre ∧ g.msg o.role = some (readAnswer M job pre)

theorem Seen.of_prefix {base : Moment} {j m : ℕ} {pre : List (Block UID UInt8)}
    (h : Seen base s j m pre) (hp : s.writesAt m <+: s'.writesAt m) : Seen base s' j m pre :=
  ⟨h.1.trans hp, h.2⟩

theorem init_history (M : MinionManager) : History .start M (Sys.init M) where
  serves m := FileManager.init_serves _ M.mb_pos
  content m := by simp [Sys.init, FileManager.init_eq, Sys.writesAt, replay, emptyFile]
  later m := List.nil_prefix
  source := by simp [Sys.init, Sys.writesAt]
  stored := by simp [Sys.init, MasterState.init]
  answers := by simp [Sys.init]
  recorded := by simp [Sys.init, MasterState.init]

/-- Any state of a run may be taken as the base from then on. -/
theorem History.rebase {base : Moment} (h : History base M s) :
    History s.moment M s := by
  have hseen : ∀ {j m : ℕ} {pre : List (Block UID UInt8)} {job : Job},
      s.master.jobs[j]? = some job → Seen base s j m pre → Seen s.moment s j m pre := by
    intro j m pre job hj hs
    refine ⟨hs.1, fun hle => ?_⟩
    have hlt := (List.getElem?_eq_some_iff.mp hj).1
    exact absurd hle (Nat.not_le_of_lt hlt)
  refine ⟨h.serves, h.content, fun m => List.prefix_rfl, h.source, h.stored, ?_, ?_⟩
  · intro q hq j i job o horig hj hop ho
    obtain ⟨pre, hs, hr⟩ := h.answers q hq j i job o horig hj hop ho
    exact ⟨pre, hseen hj hs, hr⟩
  · intro j i job t o g hj hop ht ho hg hd
    obtain ⟨pre, hs, hm⟩ := h.recorded j i job t o g hj hop ht ho hg hd
    exact ⟨pre, hseen hj hs, hm⟩

/-! ### Steps -/

section Step
variable {base : Moment}

theorem writesAt_of_executed (h : s'.executed = s.executed) (m : ℕ) :
    s'.writesAt m = s.writesAt m := by rw [Sys.writesAt, Sys.writesAt, h]

/-- Fewer answers in flight, and the same journals. -/
theorem History.of_subset (h : History base M s) (hm : s'.master = s.master)
    (hsub : ∀ q ∈ s'.toMaster, q ∈ s.toMaster) (hf : s'.files = s.files)
    (hex : s'.executed = s.executed) : History base M s' := by
  have hw := writesAt_of_executed hex
  constructor
  case serves => exact hf ▸ h.serves
  case content =>
    intro m
    rw [hf, hw]
    exact h.content m
  case later =>
    intro m
    rw [hw]
    exact h.later m
  case source =>
    intro m b hb
    rw [hw] at hb
    rw [hm]
    exact h.source m b hb
  case stored =>
    intro j i job o hj hop ho hexe
    rw [hm] at hj
    rw [hw]
    exact h.stored j i job o hj hop ho (hexe.of_subset hsub)
  case answers =>
    intro q hq j i job o horig hj hop ho
    rw [hm] at hj
    obtain ⟨pre, hs, hr⟩ := h.answers q (hsub q hq) j i job o horig hj hop ho
    exact ⟨pre, hs.of_prefix (by rw [hw]), hr⟩
  case recorded =>
    intro j i job t o g hj hop ht ho hg hd
    rw [hm] at hj
    obtain ⟨pre, hs, hmsg⟩ := h.recorded j i job t o g hj hop ht ho hg hd
    exact ⟨pre, hs.of_prefix (by rw [hw]), hmsg⟩

theorem getTaskArgs_history (h : History base M s) {req : Request} {uid : UID} :
    History base M { s with master := s.master.getTaskArgs req uid } := by
  refine ⟨h.serves, h.content, h.later, fun m b hb => ?_, fun j i job o hj hop ho hex => ?_,
    fun q hq j i job o horig hj hop ho => ?_, fun j i job t o g hj hop ht ho hg hd => ?_⟩
  · obtain ⟨j, job, r, hj, hrest⟩ := h.source m b hb
    exact ⟨j, job, r, MasterState.jobs_getTaskArgs.mpr (.inl hj), hrest⟩
  · rcases MasterState.jobs_getTaskArgs.mp hj with hj | ⟨-, rfl⟩
    · exact h.stored j i job o hj hop ho hex
    · cases ho
  · rcases MasterState.jobs_getTaskArgs.mp hj with hj | ⟨-, rfl⟩
    · exact h.answers q hq j i job o horig hj hop ho
    · cases ho
  · rcases MasterState.jobs_getTaskArgs.mp hj with hj | ⟨-, rfl⟩
    · exact h.recorded j i job t o g hj hop ht ho hg hd
    · cases ht

theorem advance_history (h : History base M s) (hn : Net M s) {j : ℕ} {ok : Bool}
    {master : MasterState} {pk : Option Packet} {job job' : Job}
    (hj : s.master.jobs[j]? = some job)
    (ha : MasterState.Advances M s.master j job ok job' master pk) :
    History base M { s with master := master, toMinion := s.toMinion ++ pk.toList } := by
  have hquiet := ha.quiet hj hn.master
  have hget := hquiet.getElem? hj
  have hblock : blockOf M job' = blockOf M job := by rw [blockOf, hquiet.uid, hquiet.req]; rfl
  have hanswer : ∀ pre, readAnswer M job' pre = readAnswer M job pre := fun pre => by
    rw [readAnswer, readAnswer, hquiet.uid, hquiet.req]
  refine ⟨h.serves, h.content, h.later, fun m b hb => ?_, fun l i job₁ o hl hop ho hex => ?_,
    fun q hq l i job₁ o horig hl hop ho => ?_, fun l i job₁ t o g hl hop ht ho hg hd => ?_⟩
  · obtain ⟨l, job₁, r, hl, hop, hm, rfl⟩ := h.source m b hb
    by_cases he : l = j
    · subst he
      obtain rfl := Option.some.inj (hj.symm.trans hl)
      exact ⟨l, job', r, by rw [hget, if_pos rfl], hquiet.req ▸ hop, hquiet.req ▸ hm,
        hblock.symm⟩
    · exact ⟨l, job₁, r, by rw [hget, if_neg he]; exact hl, hop, hm, rfl⟩
  · rw [hget] at hl
    split_ifs at hl with he
    · obtain rfl := Option.some.inj hl
      subst he
      obtain ⟨ho', hex'⟩ := advance_executed hn hj ha ho hex
      rw [hblock]
      exact h.stored l i job o hj (hquiet.req ▸ hop) ho' hex'
    · exact h.stored l i job₁ o hl hop ho hex
  · rw [hget] at hl
    split_ifs at hl with he
    · obtain rfl := Option.some.inj hl
      subst he
      have ho' := (advance_executed hn hj ha ho (.inl ⟨q, hq, horig⟩)).1
      obtain ⟨pre, hs, hr⟩ := h.answers q hq l i job o horig hj (hquiet.req ▸ hop) ho'
      exact ⟨pre, hs, by simpa only [hanswer] using hr⟩
    · exact h.answers q hq l i job₁ o horig hl hop ho
  · rw [hget] at hl
    split_ifs at hl with he
    · obtain rfl := Option.some.inj hl
      subst he
      obtain ⟨t₀, ht₀, hg₀⟩ := advance_ticket ha ht hg hd
      have ho' : job.ops[i]? = some o := (advance_slotDone ha ⟨t, g, ht, hg, hd⟩).2 ▸ ho
      obtain ⟨pre, hs, hmsg⟩ := h.recorded l i job t₀ o g hj (hquiet.req ▸ hop) ht₀ ho' hg₀ hd
      exact ⟨pre, hs, by rw [hanswer, hmsg]⟩
    · exact h.recorded l i job₁ t o g hl hop ht ho hg hd

section Answer
variable {i k n : ℕ} {q : Packet} {job : Job} {o : SendOp} {reply : AMessage} {t : Ticket}

/-- The answers to a read in its ticket afterwards show parts of the journals. -/
theorem Delivers.readRecorded (hd : Delivers s s' i q k n job o reply t) (h : History base M s)
    (hn : Net M s) (hop : job.req.op = .read) {m : ℕ} {o' : SendOp} {g : SegmentState}
    (ho' : job.ops[m]? = some o')
    (hg : (t.onMirrorResponse o.segIdx o.role (some reply)).1.segments[o'.segIdx]? = some g)
    (hdone : g.done o'.role = true) :
    ∃ pre, Seen base s k o'.minion pre ∧ g.msg o'.role = some (readAnswer M job pre) := by
  have hj := hd.tracked.job_eq
  rcases Ticket.onMirrorResponse_msg hg hdone with
    ⟨hseg, hrole, hmsg⟩ | ⟨g₀, hg₀, hdone₀, hmsg⟩
  · -- the answer of this send
    obtain rfl : n = m := (hn.planned k job hj).slot_inj (j := k) hd.tracked.op_eq ho'
      (by simp [SendOp.onDone, hseg, hrole])
    obtain rfl := Option.some.inj (hd.tracked.op_eq.symm.trans ho')
    obtain ⟨pre, hs, hr⟩ := h.answers q (List.mem_of_getElem? hd.packet) k n job o
      hd.tracked.origin hj hop ho'
    have hdec := hr fun _ => 0
    rw [hd.decoded, Receipt.message.injEq] at hdec
    exact ⟨pre, hs, by rw [hmsg, hdec]⟩
  · rw [hmsg]
    exact h.recorded k m job t o' g₀ hj hop hd.ticket ho' hg₀ hdone₀

theorem answer_history (h : History base M s) (hn : Net M s)
    (hd : Delivers s s' i q k n job o reply t) : History base M s' := by
  have hj := hd.tracked.job_eq
  have hw := writesAt_of_executed hd.executed
  have hseen : ∀ {l m : ℕ} {pre : List (Block UID UInt8)}, Seen base s l m pre →
      Seen base s' l m pre := fun hs => hs.of_prefix (by rw [hw])
  constructor
  case serves => exact hd.files ▸ h.serves
  case content =>
    intro m
    rw [hd.files, hw]
    exact h.content m
  case later =>
    intro m
    rw [hw]
    exact h.later m
  case source =>
    intro m b hb
    rw [hw] at hb
    obtain ⟨l, job₁, r, hl, hrest⟩ := h.source m b hb
    by_cases he : l = k
    · subst he
      obtain rfl := Option.some.inj (hj.symm.trans hl)
      exact ⟨l, hd.after, r, by rw [hd.getElem?, if_pos rfl], hrest⟩
    · exact ⟨l, job₁, r, by rw [hd.getElem?, if_neg he]; exact hl, hrest⟩
  case stored =>
    intro l m job₁ o₁ hl hop ho hex
    rw [hw]
    rw [hd.getElem?] at hl
    split_ifs at hl with he
    · obtain rfl := Option.some.inj hl
      subst he
      exact h.stored l m job o₁ hj hop ho (hd.executed_before hn ho hex)
    · exact h.stored l m job₁ o₁ hl hop ho (hex.of_subset hd.mem_toMaster)
  case answers =>
    intro p hp l m job₁ o₁ horig hl hop ho
    rw [hd.getElem?] at hl
    split_ifs at hl with he
    · obtain rfl := Option.some.inj hl
      subst he
      obtain ⟨pre, hs, hr⟩ := h.answers p (hd.mem_toMaster p hp) l m job o₁ horig hj hop ho
      exact ⟨pre, hseen hs, hr⟩
    · obtain ⟨pre, hs, hr⟩ := h.answers p (hd.mem_toMaster p hp) l m job₁ o₁ horig hl hop ho
      exact ⟨pre, hseen hs, hr⟩
  case recorded =>
    intro l m job₁ t₁ o₁ g hl hop ht ho hg hdone
    rw [hd.getElem?] at hl
    split_ifs at hl with he
    · obtain rfl := Option.some.inj hl
      subst he
      obtain rfl := Option.some.inj ht
      obtain ⟨pre, hs, hmsg⟩ := hd.readRecorded h hn hop ho hg hdone
      exact ⟨pre, hseen hs, hmsg⟩
    · obtain ⟨pre, hs, hmsg⟩ := h.recorded l m job₁ t₁ o₁ g hl hop ht ho hg hdone
      exact ⟨pre, hseen hs, hmsg⟩

end Answer

section Execute
variable {i n j : ℕ} {stack heap : ℕ → UInt8} {p : Packet} {f : FileManager}
  {b : Option (List UInt8)} {job : Job} {o : SendOp}

/-- A read changes no byte, and its answer shows the journal as it is. -/
theorem Executes.reads (he : Executes s s' i stack heap p f b) (hl : Local M s)
    (hserves : (s.files p.minion).Serves M.mbMinion) (htr : Tracked s.master p j n job o)
    (hr : IsRequest p o) (hop : job.req.op = .read) :
    f.content = (s.files p.minion).content ∧ f.Serves M.mbMinion ∧
      (∀ m, s'.writesAt m = s.writesAt m) ∧
      ∃ d, b = some d ∧ ∀ stack', receive masterTypes stack' d =
        .message (.readReceive job.uid 1 (UInt64.ofNat job.req.length.toNat)
          (some (((s.files p.minion).content.drop (job.req.offset.toNat % M.mbMinion)).take
            job.req.length.toNat))) := by
  obtain ⟨hadm, hone⟩ := hl.job htr.job_eq
  obtain ⟨g, hg, -, hmsg⟩ := (hl.net.planned j job htr.job_eq).segment htr.op_eq
  have hmem := List.mem_of_getElem? hg
  have hcar : Carried M job.req :=
    ⟨hadm.1, hadm.2.1, fun g' hg' => by rw [hop]; exact hadm.2.2 hop g' hg'⟩
  obtain ⟨hcontent, hserves', d, hb, hdec⟩ := served_read hserves hcar hop hmem hmsg hr he.served
  have hgeq : g.localOffset = job.req.offset.toNat % M.mbMinion ∧
      g.length = job.req.length.toNat := by
    rw [hl.segments htr.job_eq, List.mem_singleton] at hmem
    exact ⟨by rw [hmem], by rw [hmem]⟩
  refine ⟨hcontent, hserves', fun m => ?_, d, hb, ?_⟩
  · obtain ⟨beyond, hd⟩ := hr
    rw [hmsg, hop] at hd
    have hargs := getTaskArgs_readSend hd stack
    simp [Sys.writesAt, he.executed, Sys.taskOf, hargs]
  · rw [hgeq.1, hgeq.2] at hdec
    exact hdec

theorem executeRead_history (h : History base M s) (hl : Local M s)
    (he : Executes s s' i stack heap p f b) (htr : Tracked s.master p j n job o)
    (hr : IsRequest p o) (hop : job.req.op = .read) : History base M s' := by
  obtain ⟨hcontent, hserves, hw, d, hb, hdec⟩ := he.reads hl (h.serves _) htr hr hop
  have hseen : ∀ {l m : ℕ} {pre : List (Block UID UInt8)}, Seen base s l m pre →
      Seen base s' l m pre := fun hs => hs.of_prefix (by rw [hw])
  constructor
  case serves =>
    rw [he.files]
    exact FileManager.serves_update h.serves hserves
  case content =>
    intro m
    rw [he.files, FileManager.content_update hcontent, hw]
    exact h.content m
  case later =>
    intro m
    rw [hw]
    exact h.later m
  case source =>
    intro m x hx
    rw [hw] at hx
    rw [he.master]
    exact h.source m x hx
  case stored =>
    intro l m job₁ o₁ hj hopw ho hex
    rw [he.master] at hj
    rw [hw]
    refine h.stored l m job₁ o₁ hj hopw ho (hex.imp (fun ⟨q, hq, horig⟩ => ?_) id)
    rcases he.mem_toMaster hq with hq | ⟨d', -, rfl⟩
    · exact ⟨q, hq, horig⟩
    · -- the answer of this execution is that of a read
      simp only [htr.origin, Option.some.injEq, Prod.mk.injEq] at horig
      obtain ⟨rfl, rfl⟩ := horig
      obtain rfl := Option.some.inj (htr.job_eq.symm.trans hj)
      rw [hop] at hopw
      cases hopw
  case answers =>
    intro q hq l m job₁ o₁ horig hj hopr ho
    rw [he.master] at hj
    rcases he.mem_toMaster hq with hq | ⟨d', hd', rfl⟩
    · obtain ⟨pre, hs, hr⟩ := h.answers q hq l m job₁ o₁ horig hj hopr ho
      exact ⟨pre, hseen hs, hr⟩
    · simp only [htr.origin, Option.some.injEq, Prod.mk.injEq] at horig
      obtain ⟨rfl, rfl⟩ := horig
      obtain rfl := Option.some.inj (htr.job_eq.symm.trans hj)
      obtain rfl := Option.some.inj (htr.op_eq.symm.trans ho)
      obtain rfl := Option.some.inj (hb.symm.trans hd')
      refine ⟨s.writesAt o.minion, ⟨by rw [hw], fun _ => h.later o.minion⟩, fun stack' => ?_⟩
      rw [hdec, htr.minion, h.content, readAnswer]
  case recorded =>
    intro l m job₁ t o₁ g hj hopr ht ho hg hd
    rw [he.master] at hj
    obtain ⟨pre, hs, hmsg⟩ := h.recorded l m job₁ t o₁ g hj hopr ht ho hg hd
    exact ⟨pre, hseen hs, hmsg⟩

theorem executeWrite_history (h : History base M s) (hl : Local M s)
    (he : Executes s s' i stack heap p f b) (htr : Tracked s.master p j n job o)
    (hr : IsRequest p o) (hop : job.req.op = .write) : History base M s' := by
  obtain ⟨-, hone⟩ := hl.job htr.job_eq
  rcases he.journals hl.net (h.serves _) htr hr hop hone with
    ⟨hex, hf, hb⟩ | ⟨hw, hcontent, hserves⟩
  · refine h.of_subset he.master (fun q hq => ?_) ?_ hex
    · simpa [he.toMaster, hb] using hq
    · rw [he.files, hf, Function.update_eq_self]
  have hsub : ∀ m, s.writesAt m <+: s'.writesAt m := fun m => by
    rw [hw]
    exact List.prefix_append _ _
  have hseen : ∀ {l m : ℕ} {pre : List (Block UID UInt8)}, Seen base s l m pre →
      Seen base s' l m pre := fun hs => hs.of_prefix (hsub _)
  constructor
  case serves =>
    rw [he.files]
    exact FileManager.serves_update h.serves hserves
  case content =>
    intro m
    rw [he.files, hw]
    by_cases hm : m = p.minion
    · subst hm
      rw [Function.update_self, if_pos rfl, hcontent, replay_append_singleton, h.content]
    · rw [Function.update_of_ne hm, if_neg (Ne.symm hm), List.append_nil]
      exact h.content m
  case later => exact fun m => (h.later m).trans (hsub m)
  case source =>
    intro m x hx
    rw [he.master]
    rw [hw] at hx
    rcases List.mem_append.mp hx with hx | hx
    · exact h.source m x hx
    · split_ifs at hx with hm
      · refine ⟨j, job, o.role, htr.job_eq, hop, ?_, List.mem_singleton.mp hx⟩
        rw [← hm, htr.minion]
        exact (hl.minion_eq htr.job_eq htr.op_eq).2
      · cases hx
  case stored =>
    intro l m job₁ o₁ hj hopw ho hex
    rw [he.master] at hj
    rcases hex with ⟨q, hq, horig⟩ | hslot
    · rcases he.mem_toMaster hq with hq | ⟨d, -, rfl⟩
      · exact (hsub _).subset (h.stored l m job₁ o₁ hj hopw ho (.inl ⟨q, hq, horig⟩))
      · -- the answer of this execution
        simp only [htr.origin, Option.some.injEq, Prod.mk.injEq] at horig
        obtain ⟨rfl, rfl⟩ := horig
        obtain rfl := Option.some.inj (htr.job_eq.symm.trans hj)
        obtain rfl := Option.some.inj (htr.op_eq.symm.trans ho)
        rw [← htr.minion, hw, if_pos rfl]
        exact List.mem_append_right _ (List.mem_singleton.mpr rfl)
    · exact (hsub _).subset (h.stored l m job₁ o₁ hj hopw ho (.inr hslot))
  case answers =>
    intro q hq l m job₁ o₁ horig hj hopr ho
    rw [he.master] at hj
    rcases he.mem_toMaster hq with hq | ⟨d, -, rfl⟩
    · obtain ⟨pre, hs, hr⟩ := h.answers q hq l m job₁ o₁ horig hj hopr ho
      exact ⟨pre, hseen hs, hr⟩
    · -- the answer of this execution is that of a write
      simp only [htr.origin, Option.some.injEq, Prod.mk.injEq] at horig
      obtain ⟨rfl, rfl⟩ := horig
      obtain rfl := Option.some.inj (htr.job_eq.symm.trans hj)
      rw [hop] at hopr
      cases hopr
  case recorded =>
    intro l m job₁ t o₁ g hj hopr ht ho hg hd
    rw [he.master] at hj
    obtain ⟨pre, hs, hmsg⟩ := h.recorded l m job₁ t o₁ g hj hopr ht ho hg hd
    exact ⟨pre, hseen hs, hmsg⟩

end Execute

theorem step_history {a : Action} (hg : Lossy M s a) (hst : Sys.step M s a = some s')
    (hl : Local M s) (h : History base M s) : History base M s' := by
  cases a with
  | getTaskArgs req uid =>
    obtain rfl := Option.some.inj hst
    exact getTaskArgs_history h
  | advance j sendOk beyond =>
    obtain ⟨⟨master, pk⟩, hr, rfl⟩ := Option.map_eq_some_iff.mp hst
    obtain ⟨job, job', hj, hadv⟩ := MasterState.advance_cases hr
    exact advance_history h hl.net hj hadv
  | execute i stack heap =>
    obtain ⟨p, f, b, he⟩ := execute_cases hst
    obtain ⟨j, n, job, o, htr, hr⟩ := hl.net.requests p (List.mem_of_getElem? he.packet)
    cases hop : job.req.op with
    | read => exact executeRead_history h hl he htr hr hop
    | write => exact executeWrite_history h hl he htr hr hop
  | answer i stack =>
    obtain ⟨q, k, n, job, o, reply, t, hd⟩ := answer_cases hl.net hst
    exact answer_history h hl.net hd
  | loseRequest i =>
    obtain rfl := Option.some.inj hst
    exact h.of_subset rfl (fun _ hq => hq) rfl rfl
  | loseAnswer i =>
    obtain rfl := Option.some.inj hst
    exact h.of_subset rfl (fun _ hq => List.mem_of_mem_eraseIdx hq) rfl rfl
  | _ => exact hg.elim

end Step

end IoTDrive.System
