import IoTDrive.System.Contents

/-! The striped drive refines the flat drive for requests issued one after another whose
reads ask only for clean bytes. The invariant holds the two sides together: the cells
of clean bytes and of bytes a pending write has stored, the answers in flight and in
the slots of the pending request, and the replies written so far. -/

namespace IoTDrive.System

open Lib Message Minion Stripe Master Drive

variable {M : MinionManager} {s s' : Sys} {k : ℕ}

/-- All requests but the last one are completed, and replied in order. -/
structure Turns (s : Sys) (k : ℕ) : Prop where
  length : s.master.jobs.length = k ∨ s.master.jobs.length = k + 1
  completed : ∀ (j : ℕ) (job : Job), s.master.jobs[j]? = some job →
    (job.completed = true ↔ j < k)
  stream : s.master.Stream (List.range k)

/-- Every request is carried by its messages, and a read asks for clean bytes. -/
def Issued (M : MinionManager) (reqs : List Request) : Prop :=
  ∀ (j : ℕ) (req : Request), reqs[j]? = some req → Carried M req ∧
    (req.op = .read → CleanBytes M (reqs.take j) req)

/-- The minion has executed the send: its answer is on the way or in its slot. -/
def Executed (s : Sys) (j i : ℕ) (job : Job) (o : SendOp) : Prop :=
  (∃ q ∈ s.toMaster, q.origin = some (j, i)) ∨ SlotDone job o

theorem Executed.of_subset {s s' : Sys} {j i : ℕ} {job : Job} {o : SendOp}
    (h : Executed s' j i job o) (hsub : ∀ q ∈ s'.toMaster, q ∈ s.toMaster) :
    Executed s j i job o := by
  rcases h with ⟨q, hq, horig⟩ | hdone
  · exact .inl ⟨q, hsub q hq, horig⟩
  · exact .inr hdone

structure Data (M : MinionManager) (s : Sys) (k : ℕ) : Prop where
  serves : ∀ m, (s.files m).Serves M.mbMinion
  -- a clean byte that no pending write is about to change
  settled : ∀ a < M.getDriveSize, ∀ r,
    (∀ (j : ℕ) (job : Job), s.master.jobs[j]? = some job → job.completed = false →
      job.req.op = .write → ¬ Covers job.req a ∧ ¬ TouchesNeighbour M job.req a) →
    clean M (s.requests.take k) a = true →
      s.cell M r a = some (contents (s.requests.take k) a)
  -- a byte that a pending write has stored
  stored : ∀ (j i : ℕ) (job : Job) (o : SendOp) (g : StripeSegment) (a : ℕ),
    s.master.jobs[j]? = some job → job.completed = false → job.req.op = .write →
    job.ops[i]? = some o → (job.segments M)[o.segIdx]? = some g → Holds job.req g a →
    ¬ TouchesNeighbour M job.req a → Executed s j i job o →
      s.cell M o.role a = some (job.req.data.getD (a - job.req.offset.toNat) 0)
  answers : ∀ q ∈ s.toMaster, ∀ (j i : ℕ) (job : Job) (o : SendOp) (g : StripeSegment),
    q.origin = some (j, i) → s.master.jobs[j]? = some job → job.completed = false →
    job.ops[i]? = some o → (job.segments M)[o.segIdx]? = some g →
      ∀ stack, receive masterTypes stack q.bytes =
        .message (expected (contents (s.requests.take j)) job.uid job.req g)
  recorded : ∀ (j : ℕ) (job : Job) (t : Ticket) (x : ℕ) (g : SegmentState) (seg : StripeSegment)
    (r : MirrorRole), s.master.jobs[j]? = some job → job.completed = false →
    job.ticket = some t → t.segments[x]? = some g → (job.segments M)[x]? = some seg →
    g.done r = true → g.msg r = some (expected (contents (s.requests.take j)) job.uid job.req seg)
  replied : ∀ (j : ℕ) (job : Job), s.master.jobs[j]? = some job → job.completed = true →
    job.reply = (Drive.reply (contents (s.requests.take j)) job.req).map some

/-- A request is issued when all earlier ones are replied, its messages fit, and a read
asks for clean bytes; no send replaces a waiting callback; files change only through
requests, and a minion is restarted only while its file is still empty of data. -/
def InTurn (M : MinionManager) (s : Sys) : Action → Prop
  | .getTaskArgs req _ => (∀ job ∈ s.master.jobs, job.completed = true) ∧ Carried M req ∧
      (req.op = .read → CleanBytes M s.requests req)
  | .advance j _ _ => FreeSlot s.master j
  | .injectRequest _ _ => False
  | .injectAnswer _ _ => False
  | .disk _ _ => False
  | .restart m => (s.files m).content.all (· == 0) = true
  | _ => True

theorem InTurn.careful {a : Action} (h : InTurn M s a) : Careful M s a := by
  cases a with
  | getTaskArgs req uid => exact ⟨h.2.1.admissible, fun job hj _ => h.1 job hj⟩
  | advance j sendOk beyond => exact h
  | injectRequest m d => exact h
  | injectAnswer m d => exact h
  | _ => trivial

theorem Issued.append_singleton {reqs : List Request} {req : Request} (h : Issued M reqs)
    (hcar : Carried M req) (hclean : req.op = .read → CleanBytes M reqs req) :
    Issued M (reqs ++ [req]) := by
  intro j req' hj
  rcases getElem?_append_singleton.mp hj with hj | ⟨rfl, rfl⟩
  · rw [List.take_append_of_le_length (List.getElem?_eq_some_iff.mp hj).1.le]
    exact h j req' hj
  · rw [List.take_left' rfl]
    exact ⟨hcar, hclean⟩

theorem Issued.job (h : Issued M s.requests) {j : ℕ} {job : Job}
    (hj : s.master.jobs[j]? = some job) : Carried M job.req ∧
      (job.req.op = .read → CleanBytes M (s.requests.take j) job.req) :=
  h j job.req (Sys.requests_eq_some hj)

theorem Turns.pending (h : Turns s k) {j : ℕ} {job : Job} (hj : s.master.jobs[j]? = some job)
    (hc : job.completed = false) : j = k := by
  have hlt := (List.getElem?_eq_some_iff.mp hj).1
  have hge : ¬ j < k := fun hlt => by
    rw [(h.completed j job hj).mpr hlt] at hc
    cases hc
  rcases h.length with hl | hl <;> omega

theorem Turns.le_length (h : Turns s k) : k ≤ s.requests.length := by
  rw [Sys.requests_length]
  rcases h.length with hl | hl <;> omega

/-! ### Requests and losses -/

theorem requests_of_master (h : s'.master = s.master) : s'.requests = s.requests := by
  rw [Sys.requests, Sys.requests, h]

/-- When everything is replied the next request is number `k`. -/
theorem Turns.length_eq (h : Turns s k) (hall : ∀ job ∈ s.master.jobs, job.completed = true) :
    s.master.jobs.length = k := by
  rcases h.length with hl | hl
  · exact hl
  · -- the last request would be pending
    have hj := List.getElem?_eq_getElem (l := s.master.jobs) (i := k) (by omega)
    have hlt := (h.completed k _ hj).mp (hall _ (List.getElem_mem _))
    omega

section GetTaskArgs
variable {req : Request} {uid : UID}

theorem requests_getTaskArgs :
    Sys.requests { s with master := s.master.getTaskArgs req uid } = s.requests ++ [req] := by
  simp [Sys.requests, MasterState.history, MasterState.getTaskArgs]

theorem getTaskArgs_turns (h : Turns s k) (hall : ∀ job ∈ s.master.jobs, job.completed = true) :
    Turns { s with master := s.master.getTaskArgs req uid } k := by
  have hlen := h.length_eq hall
  refine ⟨.inr (by simp [MasterState.getTaskArgs, hlen]), fun j job hj => ?_,
    MasterState.getTaskArgs_stream h.stream⟩
  rcases MasterState.jobs_getTaskArgs.mp hj with hj | ⟨rfl, rfl⟩
  · exact h.completed j job hj
  · simp [Job.completed, hlen]

theorem getTaskArgs_data (h : Data M s k) (ht : Turns s k)
    (hall : ∀ job ∈ s.master.jobs, job.completed = true) :
    Data M { s with master := s.master.getTaskArgs req uid } k := by
  have htake : ∀ {j : ℕ}, j ≤ k →
      (Sys.requests { s with master := s.master.getTaskArgs req uid }).take j =
        s.requests.take j := fun hj => by
    rw [requests_getTaskArgs, List.take_append_of_le_length (hj.trans ht.le_length)]
  -- only the new request is pending, and it has no ticket yet
  have hnew : ∀ {j : ℕ} {job : Job}, (s.master.getTaskArgs req uid).jobs[j]? = some job →
      job.completed = false → job.ticket = none ∧ job.ops = [] := by
    intro j job hj hc
    rcases MasterState.jobs_getTaskArgs.mp hj with hj | ⟨-, rfl⟩
    · rw [hall job (List.mem_of_getElem? hj)] at hc
      cases hc
    · exact ⟨rfl, rfl⟩
  constructor
  case serves => exact h.serves
  case settled =>
    intro a ha r _ hclean
    rw [htake le_rfl] at hclean ⊢
    refine h.settled a ha r (fun j job hj hc => ?_) hclean
    rw [hall job (List.mem_of_getElem? hj)] at hc
    cases hc
  case stored =>
    intro j i job o g a hj hc _ ho
    simp [(hnew hj hc).2] at ho
  case answers =>
    intro q _ j i job o g _ hj hc ho
    simp [(hnew hj hc).2] at ho
  case recorded =>
    intro j job t x g seg r hj hc htk
    simp [(hnew hj hc).1] at htk
  case replied =>
    intro j job hj hc
    rcases MasterState.jobs_getTaskArgs.mp hj with hj | ⟨-, rfl⟩
    · rw [htake ((ht.completed j job hj).mp hc).le]
      exact h.replied j job hj hc
    · simp [Job.completed] at hc

end GetTaskArgs

/-- Fewer answers in flight, and files with the same bytes. -/
theorem Data.of_subset (h : Data M s k) (hm : s'.master = s.master)
    (hsub : ∀ q ∈ s'.toMaster, q ∈ s.toMaster)
    (hf : ∀ m, (s'.files m).content = (s.files m).content)
    (hserves : ∀ m, (s'.files m).Serves M.mbMinion) : Data M s' k := by
  have hreq := requests_of_master hm
  have hcell : ∀ r a, s'.cell M r a = s.cell M r a := fun r a => by
    rw [Sys.cell, Sys.cell, hf]
  constructor
  case serves => exact hserves
  case settled =>
    intro a ha r hp hclean
    rw [hm] at hp
    rw [hcell, hreq] at *
    exact h.settled a ha r hp hclean
  case stored =>
    intro j i job o g a hj hc hop ho hg hh hn hex
    rw [hm] at hj
    rw [hcell]
    exact h.stored j i job o g a hj hc hop ho hg hh hn
      (hex.of_subset hsub)
  case answers =>
    rw [hm, hreq]
    exact fun q hq => h.answers q (hsub q hq)
  case recorded =>
    rw [hm, hreq]
    exact h.recorded
  case replied =>
    rw [hm, hreq]
    exact h.replied

/-! ### Steps that complete nothing -/

/-- A step of one request that completes nothing, changes no file and adds no answer. Its
answered sends and the answers in its ticket are those it had, or are as expected. -/
theorem Data.of_quiet (h : Data M s k) {j : ℕ} {job job' : Job}
    (hj : s.master.jobs[j]? = some job)
    (hq : MasterState.Quiet s.master s'.master j job job') (hf : s'.files = s.files)
    (hsub : ∀ q ∈ s'.toMaster, q ∈ s.toMaster)
    (hex : ∀ {i : ℕ} {o : SendOp}, job'.ops[i]? = some o → Executed s' j i job' o →
      job.ops[i]? = some o ∧ Executed s j i job o)
    (hrec : ∀ {t : Ticket} {x : ℕ} {g : SegmentState} {seg : StripeSegment} {r : MirrorRole},
      job.completed = false → job'.ticket = some t → t.segments[x]? = some g →
      (job.segments M)[x]? = some seg → g.done r = true →
        g.msg r = some (expected (contents (s.requests.take j)) job.uid job.req seg)) :
    Data M s' k := by
  have hget := hq.getElem? hj
  have hreq : s'.requests = s.requests := Sys.requests_set hj hq.jobs hq.uid hq.req
  have hseg : job'.segments M = job.segments M := by rw [Job.segments, hq.req]; rfl
  have hcell : ∀ r a, s'.cell M r a = s.cell M r a := fun r a => by rw [Sys.cell, Sys.cell, hf]
  constructor
  case serves =>
    rw [hf]
    exact h.serves
  case settled =>
    intro a hsize r hp hclean
    rw [hreq] at hclean
    rw [hreq, hcell]
    refine h.settled a hsize r (fun l job₁ hl hc hop => ?_) hclean
    by_cases he : l = j
    · subst he
      obtain rfl := Option.some.inj (hj.symm.trans hl)
      have hp' := hp l job' (by rw [hget, if_pos rfl]) (by rw [hq.completed]; exact hc)
      rw [hq.req] at hp'
      exact hp' hop
    · exact hp l job₁ (by rw [hget, if_neg he]; exact hl) hc hop
  case stored =>
    intro l i job₁ o g a hl hc hop ho hg hh hnot hdone
    rw [hcell]
    rw [hget] at hl
    split_ifs at hl with he
    · obtain rfl := Option.some.inj hl
      subst he
      rw [hq.completed] at hc
      rw [hq.req] at hop hh hnot ⊢
      rw [hseg] at hg
      obtain ⟨ho', hdone'⟩ := hex ho hdone
      exact h.stored l i job o g a hj hc hop ho' hg hh hnot hdone'
    · exact h.stored l i job₁ o g a hl hc hop ho hg hh hnot
        (hdone.of_subset hsub)
  case answers =>
    intro q hmem l i job₁ o g horig hl hc ho hg
    rw [hreq]
    rw [hget] at hl
    split_ifs at hl with he
    · obtain rfl := Option.some.inj hl
      subst he
      rw [hq.completed] at hc
      rw [hseg] at hg
      rw [hq.uid, hq.req]
      exact h.answers q (hsub q hmem) l i job o g horig hj hc
        (hex ho (.inl ⟨q, hmem, horig⟩)).1 hg
    · exact h.answers q (hsub q hmem) l i job₁ o g horig hl hc ho hg
  case recorded =>
    intro l job₁ t x g seg r hl hc ht hg hs hd
    rw [hreq]
    rw [hget] at hl
    split_ifs at hl with he
    · obtain rfl := Option.some.inj hl
      subst he
      rw [hq.completed] at hc
      rw [hseg] at hs
      rw [hq.uid, hq.req]
      exact hrec hc ht hg hs hd
    · exact h.recorded l job₁ t x g seg r hl hc ht hg hs hd
  case replied =>
    intro l job₁ hl hc
    rw [hreq]
    rw [hget] at hl
    split_ifs at hl with he
    · obtain rfl := Option.some.inj hl
      subst he
      rw [hq.completed] at hc
      have hrep := h.replied l job hj hc
      rw [Job.reply] at hrep ⊢
      rw [hq.reply hc, hq.req]
      exact hrep
    · exact h.replied l job₁ hl hc

theorem Turns.of_quiet (h : Turns s k) {j : ℕ} {job job' : Job}
    (hj : s.master.jobs[j]? = some job)
    (hq : MasterState.Quiet s.master s'.master j job job') : Turns s' k := by
  refine ⟨?_, fun l job₁ hl => ?_, hq.stream hj h.stream⟩
  · rw [hq.jobs, List.length_set]
    exact h.length
  · rw [hq.getElem? hj] at hl
    split_ifs at hl with he
    · obtain rfl := Option.some.inj hl
      subst he
      rw [hq.completed]
      exact h.completed l job hj
    · exact h.completed l job₁ hl

/-! ### Steps of a request -/

section Advance
variable {j : ℕ} {ok : Bool} {master : MasterState} {pk : Option Packet} {job job' : Job}

/-- The tickets that a step of a request leaves have the segments they had, or none of
their answers. -/
theorem advance_ticket (h : MasterState.Advances M s.master j job ok job' master pk) {t : Ticket}
    (ht : job'.ticket = some t) {x : ℕ} {g : SegmentState} (hg : t.segments[x]? = some g)
    {r : MirrorRole} (hd : g.done r = true) :
    ∃ t₀, job.ticket = some t₀ ∧ t₀.segments[x]? = some g := by
  cases h with
  | create _ _ t₁ ops hadd =>
    obtain ⟨-, rfl, -⟩ := addTask_ok hadd
    obtain rfl := Option.some.inj ht
    simp only [Ticket.create, List.getElem?_map, Option.map_eq_some_iff] at hg
    obtain ⟨seg, -, rfl⟩ := hg
    simp at hd
  | announce _ _ =>
    obtain ⟨t₀, ht₀, rfl⟩ := Option.map_eq_some_iff.mp ht
    exact ⟨t₀, ht₀, hg⟩
  | _ => exact ⟨t, ht, hg⟩

/-- A send that has been executed was there before the step. -/
theorem advance_executed (hn : Net M s) (hj : s.master.jobs[j]? = some job)
    (ha : MasterState.Advances M s.master j job ok job' master pk) {i : ℕ} {o : SendOp}
    (ho : job'.ops[i]? = some o)
    (hex : Executed { s with master := master, toMinion := s.toMinion ++ pk.toList } j i job' o) :
    job.ops[i]? = some o ∧ Executed s j i job o := by
  rcases hex with ⟨q, hq, horig⟩ | hd
  · obtain ⟨job₁, o₁, ht⟩ := hn.tracked (List.mem_append_right _ hq) horig
    obtain rfl := Option.some.inj (ht.job_eq.symm.trans hj)
    rw [advance_ops ha (hn.master.sound _ _ hj) (hn.planned _ _ hj)
      (Nat.zero_lt_of_lt ht.sent)] at ho
    exact ⟨ho, .inl ⟨q, hq, horig⟩⟩
  · obtain ⟨hd', he⟩ := advance_slotDone ha hd
    exact ⟨he ▸ ho, .inr hd'⟩

theorem advance_data (h : Data M s k) (hn : Net M s) (hj : s.master.jobs[j]? = some job)
    (ha : MasterState.Advances M s.master j job ok job' master pk) :
    Data M { s with master := master, toMinion := s.toMinion ++ pk.toList } k := by
  refine h.of_quiet hj (ha.quiet hj hn.master) rfl (fun _ hq => hq)
    (fun ho hex => advance_executed hn hj ha ho hex) (fun hc ht hg hs hd => ?_)
  obtain ⟨t₀, ht₀, hg₀⟩ := advance_ticket ha ht hg hd
  exact h.recorded j job t₀ _ _ _ _ hj hc ht₀ hg₀ hs hd

end Advance

end IoTDrive.System
