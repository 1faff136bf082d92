import IoTDrive.Drive.Flat
import IoTDrive.System.Answered

/-! Slots and datagrams. A slot that is filled belongs to a send whose datagrams have left
the network. A completed write has sent and heard everything, while a completed read
may leave datagrams behind; so only a pending write has datagrams that still change
files. -/

namespace IoTDrive.System

open Lib Message Minion Stripe Master Drive

variable {M : MinionManager} {s s' : Sys}

/-- A request on the drive all of whose messages fit the receive buffer. -/
def Carried (M : MinionManager) (req : Request) : Prop :=
  M.InRange req.offset.toNat req.length.toNat ∧ 0 < req.length.toNat ∧
    ∀ g ∈ M.segments req.offset.toNat req.length.toNat, g.length ≤ maxLength req.op

instance (M : MinionManager) (req : Request) : Decidable (Carried M req) :=
  inferInstanceAs (Decidable (_ ∧ _ ∧ ∀ g ∈ M.segments _ _, g.length ≤ maxLength req.op))

theorem Carried.admissible {req : Request} (h : Carried M req) : Admissible M req :=
  ⟨h.1, h.2.1, fun hop g hg => by simpa [hop, maxLength] using h.2.2 g hg⟩

/-! ### Slots -/

/-- An answered send of a pending request has left the network, and a completed write has
sent and heard everything. -/
structure Slots (s : Sys) : Prop where
  pending : ∀ (j i : ℕ) (job : Job) (o : SendOp), s.master.jobs[j]? = some job →
    job.completed = false → job.ops[i]? = some o → SlotDone job o →
      i < job.sent ∧ ¬ InFlight s j i
  written : ∀ (j : ℕ) (job : Job), s.master.jobs[j]? = some job → job.req.op = .write →
    job.completed = true → job.sent = job.ops.length ∧ ∀ i, ¬ InFlight s j i

theorem init_slots (M : MinionManager) : Slots (Sys.init M) :=
  ⟨by simp [Sys.init, MasterState.init], by simp [Sys.init, MasterState.init]⟩

/-- Fewer datagrams and the same requests. -/
theorem Slots.of_subset (h : Slots s) (hm : s'.master = s.master)
    (hf : ∀ {j i : ℕ}, InFlight s' j i → InFlight s j i) : Slots s' :=
  ⟨fun j i job o hj hc ho hd => by
      rw [hm] at hj
      obtain ⟨h1, h2⟩ := h.pending j i job o hj hc ho hd
      exact ⟨h1, fun hi => h2 (hf hi)⟩,
    fun j job hj hop hc => by
      rw [hm] at hj
      obtain ⟨h1, h2⟩ := h.written j job hj hop hc
      exact ⟨h1, fun i hi => h2 i (hf hi)⟩⟩

theorem getTaskArgs_slots (h : Slots s) {req : Request} {uid : UID} :
    Slots { s with master := s.master.getTaskArgs req uid } := by
  refine ⟨fun j i job o hj hc ho hd => ?_, fun j job hj hop hc => ?_⟩
  · rcases MasterState.jobs_getTaskArgs.mp hj with hj | ⟨-, rfl⟩
    · exact h.pending j i job o hj hc ho hd
    · cases ho
  · rcases MasterState.jobs_getTaskArgs.mp hj with hj | ⟨-, rfl⟩
    · exact h.written j job hj hop hc
    · cases hc

/-- A step of a request fills no slot. -/
theorem advance_slotDone {m m' : MasterState} {j : ℕ} {job job' : Job} {ok : Bool}
    {pk : Option Packet} (h : MasterState.Advances M m j job ok job' m' pk) {o : SendOp}
    (hd : SlotDone job' o) : SlotDone job o ∧ job'.ops = job.ops := by
  cases h with
  | create _ hq t ops hadd =>
    obtain ⟨-, rfl, -⟩ := addTask_ok hadd
    obtain ⟨t, g, ht, hg, hdone⟩ := hd
    obtain rfl := Option.some.inj ht
    simp only [Ticket.create, List.getElem?_map, Option.map_eq_some_iff] at hg
    obtain ⟨seg, -, rfl⟩ := hg
    simp at hdone
  | announce _ _ =>
    obtain ⟨t, g, ht, hg, hdone⟩ := hd
    obtain ⟨t₁, ht₁, rfl⟩ := Option.map_eq_some_iff.mp ht
    exact ⟨⟨t₁, g, ht₁, hg, hdone⟩, rfl⟩
  | _ => exact ⟨hd, rfl⟩

theorem advance_slots (h : Slots s) (hn : Net M s) {j : ℕ} {ok : Bool} {master : MasterState}
    {pk : Option Packet} {job job' : Job} (hj : s.master.jobs[j]? = some job)
    (ha : MasterState.Advances M s.master j job ok job' master pk) :
    Slots { s with master := master, toMinion := s.toMinion ++ pk.toList } := by
  obtain ⟨hjobs, -, hreq, hsent⟩ := ha.frame
  have hquiet := ha.quiet hj hn.master
  have hget := hquiet.getElem? hj
  have hflight : ∀ {k i : ℕ},
      InFlight { s with master := master, toMinion := s.toMinion ++ pk.toList } k i →
        InFlight s k i ∨ k = j ∧ i = job.sent ∧ job.sent < job.ops.length := by
    rintro k i ⟨p, hp, horig⟩
    simp only [List.mem_append, Option.mem_toList] at hp
    rcases hp with (hp | hp) | hp
    · exact .inl ⟨p, by simp [hp], horig⟩
    · right
      subst hp
      cases ha with
      | send _ o d beyond ho _ _ =>
        simp only [Option.some.injEq, Prod.mk.injEq] at horig
        exact ⟨horig.1.symm, horig.2.symm, (List.getElem?_eq_some_iff.mp ho).1⟩
    · exact .inl ⟨p, by simp [hp], horig⟩
  refine ⟨fun k i job₁ o hk hc ho hd => ?_, fun k job₁ hk hop hc => ?_⟩
  · rw [hget] at hk
    split_ifs at hk with he
    · obtain rfl := Option.some.inj hk
      subst he
      obtain ⟨hd', hops⟩ := advance_slotDone ha hd
      rw [hquiet.completed] at hc
      rw [hops] at ho
      obtain ⟨h1, h2⟩ := h.pending k i job o hj hc ho hd'
      refine ⟨by omega, fun hi => ?_⟩
      rcases hflight hi with hi | ⟨-, rfl, -⟩
      · exact h2 hi
      · omega
    · obtain ⟨h1, h2⟩ := h.pending k i job₁ o hk hc ho hd
      refine ⟨h1, fun hi => ?_⟩
      rcases hflight hi with hi | ⟨rfl, -, -⟩
      · exact h2 hi
      · exact he rfl
  · rw [hget] at hk
    split_ifs at hk with he
    · obtain rfl := Option.some.inj hk
      subst he
      rw [hquiet.completed] at hc
      rw [hreq] at hop
      obtain ⟨h1, h2⟩ := h.written k job hj hop hc
      refine ⟨?_, fun i hi => ?_⟩
      · -- a completed write has no step left that sends
        cases ha with
        | create _ hq _ _ _ =>
          simp [Job.completed, (hn.master.sound k job hj).early (.inr hq)] at hc
        | send _ o d beyond ho _ _ =>
          have := (List.getElem?_eq_some_iff.mp ho).1
          omega
        | _ => exact h1
      · rcases hflight hi with hi | ⟨-, -, hlt⟩
        · exact h2 i hi
        · omega
    · obtain ⟨h1, h2⟩ := h.written k job₁ hk hop hc
      refine ⟨h1, fun i hi => ?_⟩
      rcases hflight hi with hi | ⟨rfl, -, -⟩
      · exact h2 i hi
      · exact he rfl

theorem Executes.inFlight {i : ℕ} {stack heap : ℕ → UInt8} {p : Packet} {f : FileManager}
    {a : Option (List UInt8)} (h : Executes s s' i stack heap p f a) {j n : ℕ}
    (hf : InFlight s' j n) : InFlight s j n := by
  obtain ⟨q, hq, horig⟩ := hf
  rw [h.toMinion, h.toMaster] at hq
  simp only [List.mem_append] at hq
  rcases hq with hq | hq | hq
  · exact ⟨q, by simp [List.mem_of_mem_eraseIdx hq], horig⟩
  · exact ⟨q, by simp [hq], horig⟩
  · cases a with
    | none => simp at hq
    | some d =>
      simp only [Option.map_some, Option.toList_some, List.mem_singleton] at hq
      subst hq
      exact ⟨p, by simp [List.mem_of_getElem? h.packet], horig⟩

section Delivery
variable {i k n : ℕ} {q : Packet} {job : Job} {o : SendOp} {reply : AMessage} {t : Ticket}

/-- The answer has left the network. -/
theorem Delivers.inFlight (h : Delivers s s' i q k n job o reply t) (hn : Net M s) {l m : ℕ}
    (hf : InFlight s' l m) : InFlight s l m ∧ (l, m) ≠ (k, n) := by
  obtain ⟨p, hp, horig⟩ := hf
  have hnd := hn.nodup
  rw [List.map_append, List.nodup_append] at hnd
  have hne : p.origin ≠ q.origin := by
    rw [h.toMinion, h.toMaster] at hp
    rcases List.mem_append.mp hp with hp | hp
    · exact fun he => hnd.2.2 p.origin (List.mem_map_of_mem hp) q.origin
        (List.mem_map_of_mem (List.mem_of_getElem? h.packet)) he
    · exact origin_ne_of_mem_eraseIdx hnd.2.1 h.packet hp
  rw [h.toMinion, h.toMaster] at hp
  refine ⟨⟨p, ?_, horig⟩, fun he => hne ?_⟩
  · rcases List.mem_append.mp hp with hp | hp
    · exact List.mem_append_left _ hp
    · exact List.mem_append_right _ (List.mem_of_mem_eraseIdx hp)
  · rw [horig, h.tracked.origin, he]

/-- An answer fills the slot of its send and no other. -/
theorem Delivers.slotDone (h : Delivers s s' i q k n job o reply t) {o' : SendOp}
    (hd : SlotDone h.after o') : SlotDone job o' ∨ o'.segIdx = o.segIdx ∧ o'.role = o.role := by
  obtain ⟨t', g', ht', hg', hdone⟩ := hd
  obtain rfl := Option.some.inj ht'
  have hstored : (t.store o.segIdx o.role (some reply)).segments[o'.segIdx]? = some g' →
      SlotDone job o' ∨ o'.segIdx = o.segIdx ∧ o'.role = o.role := by
    intro hst
    cases hg : t.segments[o'.segIdx]? with
    | none => simp [Ticket.store, List.getElem?_modify, hg] at hst
    | some g =>
      rw [Ticket.getElem?_store hg, Option.some.injEq] at hst
      subst hst
      split_ifs at hdone with hseg
      · rw [SegmentState.record_done] at hdone
        split_ifs at hdone with hrole
        · exact .inr ⟨hseg.symm, hrole⟩
        · exact .inl ⟨t, g, h.ticket, hg, hdone⟩
      · exact .inl ⟨t, g, h.ticket, hg, hdone⟩
  rcases Ticket.onMirrorResponse_cases t o.segIdx o.role (some reply) with
    ⟨-, he⟩ | ⟨-, -, ⟨-, he⟩ | ⟨-, he⟩⟩
  · rw [he] at hg'
    exact .inl ⟨t, g', h.ticket, hg', hdone⟩
  · rw [he] at hg'
    exact hstored hg'
  · rw [he] at hg'
    exact hstored hg'

/-- The slots that are filled after an answer. -/
theorem Delivers.slot (h : Delivers s s' i q k n job o reply t) (hs : Slots s) (hn : Net M s)
    (hc : job.completed = false) {m : ℕ} {o' : SendOp} (ho : job.ops[m]? = some o')
    (hd : SlotDone h.after o') : m < job.sent ∧ ¬ InFlight s' k m := by
  rcases h.slotDone hd with hd | ⟨hseg, hrole⟩
  · obtain ⟨h1, h2⟩ := hs.pending k m job o' h.tracked.job_eq hc ho hd
    exact ⟨h1, fun hf => h2 (h.inFlight hn hf).1⟩
  · have hmn : n = m := (hn.planned k job h.tracked.job_eq).slot_inj (j := k) h.tracked.op_eq ho
      (by simp [SendOp.onDone, hseg, hrole])
    subst hmn
    exact ⟨h.tracked.sent, fun hf => (h.inFlight hn hf).2 rfl⟩

/-- A ticket that has just completed has every segment resolved. -/
theorem Delivers.resolved (h : Delivers s s' i q k n job o reply t) (hc : job.completed = false)
    (hc' : h.after.completed = true) :
    (t.onMirrorResponse o.segIdx o.role (some reply)).1.segments.all
      (SegmentState.isSegmentResolved t.op) = true := by
  have hpend : t.completed = false := by simpa [Job.completed, h.ticket] using hc
  have hcomp : (t.onMirrorResponse o.segIdx o.role (some reply)).1.completed = true := by
    simpa [Job.completed] using hc'
  rcases Ticket.onMirrorResponse_cases t o.segIdx o.role (some reply) with
    ⟨-, he⟩ | ⟨-, -, ⟨-, he⟩ | ⟨hall, he⟩⟩
  · rw [he, hpend] at hcomp
    cases hcomp
  · rw [he, show (t.store o.segIdx o.role (some reply)).completed = t.completed from rfl,
      hpend] at hcomp
    cases hcomp
  · rw [he]
    exact hall

/-- A write all of whose segments are resolved has every slot filled. -/
theorem slotDone_of_resolved (hplan : Planned M job) (ht : job.ticket = some t)
    (hop : t.op = .write) (hres : t.segments.all (SegmentState.isSegmentResolved t.op) = true)
    {m : ℕ} {o' : SendOp} (ho : job.ops[m]? = some o') : SlotDone job o' := by
  obtain ⟨seg, hseg, -, -⟩ := hplan.segment ho
  have hlen := congrArg List.length (hplan.shape t ht)
  simp only [List.length_map] at hlen
  have hlt : o'.segIdx < t.segments.length := by
    rw [hlen]
    exact (List.getElem?_eq_some_iff.mp hseg).1
  refine ⟨t, _, ht, List.getElem?_eq_getElem hlt, ?_⟩
  have hall := List.all_eq_true.mp hres _ (List.getElem_mem hlt)
  rw [hop] at hall
  simp only [SegmentState.isSegmentResolved, Bool.and_eq_true] at hall
  cases o'.role with
  | primary => exact hall.1
  | backup => exact hall.2

/-- A write that has just completed has every slot filled. -/
theorem Delivers.all_slots (h : Delivers s s' i q k n job o reply t) (hn : Net M s)
    (hop : job.req.op = .write) (hc : job.completed = false) (hc' : h.after.completed = true)
    {m : ℕ} {o' : SendOp} (ho : job.ops[m]? = some o') : SlotDone h.after o' := by
  have htop : (t.onMirrorResponse o.segIdx o.role (some reply)).1.op = t.op :=
    (Ticket.onMirrorResponse_frame t o.segIdx o.role (some reply)).2.1
  have hwrite : t.op = .write :=
    ((hn.master.sound k job h.tracked.job_eq).ticket_eq t h.ticket).2.1.trans hop
  exact slotDone_of_resolved (h.planned hn) rfl (htop.trans hwrite)
    (by rw [htop]; exact h.resolved hc hc') ho

theorem answer_slots (hs : Slots s) (hn : Net M s) (hn' : Net M s')
    (h : Delivers s s' i q k n job o reply t) : Slots s' := by
  refine ⟨fun l m job₁ o₁ hl hc ho hd => ?_, fun l job₁ hl hop hc => ?_⟩
  · rw [h.getElem?] at hl
    split_ifs at hl with he
    · obtain rfl := Option.some.inj hl
      subst he
      have hc₀ : job.completed = false := by
        by_contra hne
        have hcomp : t.completed = true := by simpa [Job.completed, h.ticket] using hne
        simp [Job.completed, Ticket.onMirrorResponse_monotone hcomp] at hc
      exact h.slot hs hn hc₀ ho hd
    · obtain ⟨h1, h2⟩ := hs.pending l m job₁ o₁ hl hc ho hd
      exact ⟨h1, fun hf => h2 (h.inFlight hn hf).1⟩
  · have hl' := hl
    rw [h.getElem?] at hl
    split_ifs at hl with he
    · obtain rfl := Option.some.inj hl
      subst he
      cases hc₀ : job.completed with
      | true =>
        obtain ⟨h1, h2⟩ := hs.written l job h.tracked.job_eq hop hc₀
        exact ⟨h1, fun m hf => h2 m (h.inFlight hn hf).1⟩
      | false =>
        have hslot : ∀ {m : ℕ} {o' : SendOp}, job.ops[m]? = some o' →
            m < job.sent ∧ ¬ InFlight s' l m := fun ho =>
          h.slot hs hn hc₀ ho (h.all_slots hn hop hc₀ hc ho)
        refine ⟨Nat.le_antisymm (hn.planned l job h.tracked.job_eq).sent_le ?_, fun m hf => ?_⟩
        · by_contra hlt
          have hm : job.sent < job.ops.length := Nat.lt_of_not_le hlt
          exact absurd (hslot (List.getElem?_eq_getElem hm)).1 (Nat.lt_irrefl _)
        · obtain ⟨p, hp, horig⟩ := hf
          obtain ⟨job₁, o', ht⟩ := hn'.tracked hp horig
          have hop' := ht.op_eq
          rw [← Option.some.inj (hl'.symm.trans ht.job_eq)] at hop'
          exact (hslot hop').2 ⟨p, hp, horig⟩
    · obtain ⟨h1, h2⟩ := hs.written l job₁ hl hop hc
      exact ⟨h1, fun m hf => h2 m (h.inFlight hn hf).1⟩

end Delivery

end IoTDrive.System
