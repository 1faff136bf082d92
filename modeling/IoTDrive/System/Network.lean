import IoTDrive.System.Tracking

/-! Datagrams in flight and the callbacks that wait for them. As long as no foreign
datagram appears and no send replaces a callback that is still waiting, every
datagram in flight is tracked, over all requests at once. So every answer finds its
own slot. -/

namespace IoTDrive.System

open Lib Message Minion Stripe Master

variable {M : MinionManager} {s s' : Sys}

/-- The send a datagram in flight belongs to. -/
theorem Net.tracked (hs : Net M s) {p : Packet} (hp : p ∈ s.toMinion ++ s.toMaster) {j i : ℕ}
    (horig : p.origin = some (j, i)) : ∃ job o, Tracked s.master p j i job o := by
  have hany : ∃ l n job o, Tracked s.master p l n job o := by
    rcases List.mem_append.mp hp with hp | hp
    · obtain ⟨l, n, job, o, ht, -⟩ := hs.requests p hp
      exact ⟨l, n, job, o, ht⟩
    · obtain ⟨l, n, job, o, ht, -⟩ := hs.answers p hp
      exact ⟨l, n, job, o, ht⟩
  obtain ⟨l, n, job, o, ht⟩ := hany
  obtain ⟨rfl, rfl⟩ := Prod.mk.injEq .. |>.mp (Option.some.inj (ht.origin.symm.trans horig))
  exact ⟨job, o, ht⟩

/-- Requests are admissible and their UIDs are not in use, no send replaces a waiting
callback, and no datagram comes from elsewhere. -/
def Careful (M : MinionManager) (s : Sys) : Action → Prop
  | .getTaskArgs req uid => Admissible M req ∧
      ∀ job ∈ s.master.jobs, job.uid = uid → job.completed = true
  | .advance j _ _ => FreeSlot s.master j
  | .injectRequest _ _ => False
  | .injectAnswer _ _ => False
  | _ => True

theorem Careful.pendingDistinct {a : Action} (h : Careful M s a) : s.PendingDistinct a := by
  cases a <;> first | exact h.2 | trivial

theorem init_net (M : MinionManager) : Net M (Sys.init M) where
  master := MasterState.init_inv
  admissible := by simp [Sys.init, MasterState.init]
  planned := by simp [Sys.init, MasterState.init]
  requests := by simp [Sys.init]
  answers := by simp [Sys.init]
  nodup := by simp [Sys.init]

theorem getTaskArgs_net (hs : Net M s) {req : Request} {uid : UID}
    (h : s' = { s with master := s.master.getTaskArgs req uid }) (hm : s'.master.Inv)
    (hreq : Admissible M req) : Net M s' := by
  subst h
  have hkeep : ∀ {p : Packet} {j i : ℕ} {job : Job} {o : SendOp}, Tracked s.master p j i job o →
      Tracked (s.master.getTaskArgs req uid) p j i job o := fun ht =>
    ht.mono (MasterState.jobs_getTaskArgs.mpr (.inl ht.job_eq)) rfl rfl le_rfl ht.callback
  refine ⟨hm, fun j job hj => ?_, fun j job hj => ?_, fun p hp => ?_, fun p hp => ?_, hs.nodup⟩
  · rcases MasterState.jobs_getTaskArgs.mp hj with hj | ⟨-, rfl⟩
    · exact hs.admissible j job hj
    · exact hreq
  · rcases MasterState.jobs_getTaskArgs.mp hj with hj | ⟨-, rfl⟩
    · exact hs.planned j job hj
    · exact ⟨fun _ => ⟨rfl, rfl⟩, by simp, by simp, le_rfl⟩
  · obtain ⟨j, i, job, o, ht, hr⟩ := hs.requests p hp
    exact ⟨j, i, job, o, hkeep ht, hr⟩
  · obtain ⟨j, i, job, o, ht, hr⟩ := hs.answers p hp
    exact ⟨j, i, job, o, hkeep ht, hr⟩

theorem advance_net (hs : Net M s) {j : ℕ} {ok : Bool} {master : MasterState}
    {pk : Option Packet} {job job' : Job} (hj : s.master.jobs[j]? = some job)
    (h : MasterState.Advances M s.master j job ok job' master pk)
    (he : s' = { s with master := master, toMinion := s.toMinion ++ pk.toList })
    (hm : s'.master.Inv) (hfree : FreeSlot s.master j) : Net M s' := by
  subst he
  have hsound := hs.master.sound j job hj
  have hplan := hs.planned j job hj
  obtain ⟨hjobs, hu, hreq, -⟩ := h.frame
  have hget : ∀ k, master.jobs[k]? = if k = j then some job' else s.master.jobs[k]? := fun k => by
    rw [hjobs]
    exact MasterState.jobs_setJob hj job' k
  have hreqs : ∀ p ∈ s.toMinion, ∃ k i job o, Tracked master p k i job o ∧ IsRequest p o := by
    intro p hp
    obtain ⟨k, i, job₁, o, ht, hr⟩ := hs.requests p hp
    obtain ⟨job₂, ht₂, -⟩ := advance_tracked h hj hsound hplan hfree ht
    exact ⟨k, i, job₂, o, ht₂, hr⟩
  refine ⟨hm, fun k job₁ hk => ?_, fun k job₁ hk => ?_, fun p hp => ?_, fun p hp => ?_, ?_⟩
  · rw [hget] at hk
    split_ifs at hk with he
    · obtain rfl := Option.some.inj hk
      rw [hreq]
      exact hs.admissible j job hj
    · exact hs.admissible k job₁ hk
  · rw [hget] at hk
    split_ifs at hk with he
    · exact Option.some.inj hk ▸ advance_planned h hsound hplan
    · exact hs.planned k job₁ hk
  · rcases List.mem_append.mp hp with hp | hp
    · exact hreqs p hp
    · rw [Option.mem_toList] at hp
      subst hp
      obtain ⟨o, ht, hr⟩ := advance_packet h hj
      exact ⟨j, job.sent, job', o, ht, hr⟩
  · obtain ⟨k, i, job₁, o, ht, reply, hr, hdec⟩ := hs.answers p hp
    obtain ⟨job₂, ht₂, hu₂⟩ := advance_tracked h hj hsound hplan hfree ht
    exact ⟨k, i, job₂, o, ht₂, reply, hu₂ ▸ hr, hdec⟩
  · cases pk with
    | none => simpa using hs.nodup
    | some p =>
      obtain ⟨o, ht, -⟩ := advance_packet h hj
      -- the counter of the loop has not been used by an earlier send
      have hnew : ∀ q ∈ s.toMinion ++ s.toMaster, q.origin ≠ p.origin := by
        intro q hq he
        obtain ⟨job₂, o₂, ht₂⟩ := hs.tracked hq (he.trans ht.origin)
        have hlt := ht₂.sent
        rw [Option.some.inj (ht₂.job_eq.symm.trans hj)] at hlt
        omega
      have hperm : ((s.toMinion ++ [p] ++ s.toMaster).map Packet.origin).Perm
          (p.origin :: (s.toMinion ++ s.toMaster).map Packet.origin) := by
        rw [← List.map_cons, List.append_assoc]
        exact List.Perm.map _ List.perm_middle
      refine hperm.nodup_iff.mpr (List.nodup_cons.mpr ⟨fun hmem => ?_, hs.nodup⟩)
      obtain ⟨q, hq, he⟩ := List.mem_map.mp hmem
      exact hnew q hq he

/-- What a minion answers to a tracked request. -/
theorem isAnswer_of_served (hs : Net M s) {p : Packet} {j i : ℕ} {job : Job} {o : SendOp}
    (ht : Tracked s.master p j i job o) (hr : IsRequest p o) {stack heap : ℕ → UInt8}
    {f f' : FileManager} {d : List UInt8} (h : serve stack heap f p.bytes = some (f', some d)) :
    IsAnswer ⟨p.minion, p.origin, d⟩ job := by
  obtain ⟨seg, hseg, -, hmsg⟩ := (hs.planned j job ht.job_eq).segment ht.op_eq
  obtain ⟨hin, -, hread⟩ := hs.admissible j job ht.job_eq
  obtain ⟨beyond, hd⟩ := hr
  have hmem := List.mem_of_getElem? hseg
  rw [hmsg] at hd
  refine serve_answer (segmentWords hin hmem) (fun hop => ?_) (fun hop => hread hop seg hmem)
    hd h
  refine slice_length_of_mem hin ?_ hmem
  rw [job.req.data_length, if_pos hop]

theorem execute_net (hs : Net M s) {i : ℕ} {stack heap : ℕ → UInt8} {p : Packet}
    {f : FileManager} {a : Option (List UInt8)} (h : Executes s s' i stack heap p f a) :
    Net M s' := by
  obtain ⟨j, n, job, o, ht, hr⟩ := hs.requests p (List.mem_of_getElem? h.packet)
  obtain ⟨hlt, hget⟩ := List.getElem?_eq_some_iff.mp h.packet
  refine ⟨h.master ▸ hs.master, h.master ▸ hs.admissible, h.master ▸ hs.planned, fun q hq => ?_,
    fun q hq => ?_, ?_⟩
  · rw [h.toMinion] at hq
    rw [h.master]
    exact hs.requests q (List.mem_of_mem_eraseIdx hq)
  · rw [h.toMaster] at hq
    rw [h.master]
    rcases List.mem_append.mp hq with hq | hq
    · exact hs.answers q hq
    · cases a with
      | none => simp at hq
      | some d =>
        simp only [Option.map_some, Option.toList_some, List.mem_singleton] at hq
        subst hq
        exact ⟨j, n, job, o, ⟨ht.origin, ht.job_eq, ht.op_eq, ht.sent, ht.minion, ht.callback⟩,
          isAnswer_of_served hs ht hr h.served⟩
  · -- the origin of the request is that of the answer
    have hperm : (p.origin :: (s.toMinion.eraseIdx i ++ s.toMaster).map Packet.origin).Perm
        ((s.toMinion ++ s.toMaster).map Packet.origin) := by
      rw [← List.map_cons, ← List.cons_append, ← hget]
      exact ((List.getElem_cons_eraseIdx_perm hlt).append_right _).map _
    have hnodup := hperm.nodup_iff.mpr hs.nodup
    rw [h.toMinion, h.toMaster]
    cases a with
    | none => simpa using (List.nodup_cons.mp hnodup).2
    | some d =>
      refine (List.Perm.nodup_iff ?_).mp hnodup
      refine (List.perm_append_singleton _ _).symm.trans (List.Perm.of_eq ?_)
      simp

/-- Losing datagrams leaves the others tracked. -/
theorem lose_net (hs : Net M s) {reqs answers : List Packet} (hr : reqs.Sublist s.toMinion)
    (ha : answers.Sublist s.toMaster) {files : ℕ → FileManager} {executed : List (ℕ × MinionArgs)}
    (h : s' = ⟨s.master, reqs, answers, files, executed⟩) : Net M s' := by
  subst h
  exact ⟨hs.master, hs.admissible, hs.planned, fun p hp => hs.requests p (hr.subset hp),
    fun p hp => hs.answers p (ha.subset hp), hs.nodup.sublist ((hr.append ha).map _)⟩

theorem answer_net (hs : Net M s) {i k n : ℕ} {q : Packet} {job : Job} {o : SendOp}
    {reply : AMessage} {t : Ticket} (h : Delivers s s' i q k n job o reply t)
    (hm : s'.master.Inv) : Net M s' := by
  have hj := h.tracked.job_eq
  have hplan := hs.planned k job hj
  -- another datagram waits at another proxy or under another UID
  have hkeep : ∀ {p : Packet} {l m : ℕ} {job₁ : Job} {o₁ : SendOp}, p.origin ≠ q.origin →
      Tracked s.master p l m job₁ o₁ →
      ∃ job₂, Tracked s'.master p l m job₂ o₁ ∧ job₂.uid = job₁.uid := by
    intro p l m job₁ o₁ hne ht
    have hcb : (s'.master.proxies o₁.minion).map job₁.uid = some (o₁.onDone l) := by
      rw [h.proxies]
      by_cases hmin : o₁.minion = o.minion
      · rw [hmin, Function.update_self]
        have huid : job₁.uid ≠ job.uid := fun huid => by
          have hc := ht.callback
          rw [hmin, huid, h.tracked.callback, Option.some.injEq] at hc
          have hlk : k = l := congrArg Callback.ticket hc
          subst hlk
          obtain rfl : job = job₁ := Option.some.inj (hj.symm.trans ht.job_eq)
          have hnm := hplan.slot_inj h.tracked.op_eq ht.op_eq hc
          exact hne (by rw [ht.origin, h.tracked.origin, hnm])
        have hc := ht.callback
        rw [hmin] at hc
        simpa [Function.update_of_ne huid] using hc
      · rw [Function.update_of_ne hmin]
        exact ht.callback
    by_cases hl : l = k
    · subst hl
      obtain rfl : job = job₁ := Option.some.inj (hj.symm.trans ht.job_eq)
      exact ⟨h.after, ht.mono (by rw [h.getElem?, if_pos rfl]) rfl rfl le_rfl hcb, rfl⟩
    · exact ⟨job₁, ht.mono (by rw [h.getElem?, if_neg hl]; exact ht.job_eq) rfl rfl le_rfl hcb, rfl⟩
  have hnd := hs.nodup
  rw [List.map_append, List.nodup_append] at hnd
  refine ⟨hm, fun l job₁ hl => ?_, fun l job₁ hl => ?_, fun p hp => ?_, fun p hp => ?_, ?_⟩
  · rw [h.getElem?] at hl
    split_ifs at hl with he
    · exact Option.some.inj hl ▸ hs.admissible k job hj
    · exact hs.admissible l job₁ hl
  · rw [h.getElem?] at hl
    split_ifs at hl with he
    · exact Option.some.inj hl ▸ h.planned hs
    · exact hs.planned l job₁ hl
  · rw [h.toMinion] at hp
    obtain ⟨l, m, job₁, o₁, ht, hr⟩ := hs.requests p hp
    have hne : p.origin ≠ q.origin := fun he =>
      hnd.2.2 p.origin (List.mem_map_of_mem hp) q.origin
        (List.mem_map_of_mem (List.mem_of_getElem? h.packet)) he
    obtain ⟨job₂, ht₂, -⟩ := hkeep hne ht
    exact ⟨l, m, job₂, o₁, ht₂, hr⟩
  · rw [h.toMaster] at hp
    obtain ⟨l, m, job₁, o₁, ht, reply₁, hr, hdec⟩ :=
      hs.answers p (List.mem_of_mem_eraseIdx hp)
    obtain ⟨job₂, ht₂, hu₂⟩ := hkeep (origin_ne_of_mem_eraseIdx hnd.2.1 h.packet hp) ht
    exact ⟨l, m, job₂, o₁, ht₂, reply₁, hu₂ ▸ hr, hdec⟩
  · rw [h.toMinion, h.toMaster]
    exact hs.nodup.sublist (((List.Sublist.refl _).append (List.eraseIdx_sublist _ _)).map _)

theorem step_net {a : Action} (hg : Careful M s a) (h : Sys.step M s a = some s')
    (hs : Net M s) : Net M s' := by
  have hm := Sys.step_masterInv h hg.pendingDistinct hs.master
  cases a with
  | getTaskArgs req uid => exact getTaskArgs_net hs (Option.some.inj h).symm hm hg.1
  | advance j sendOk beyond =>
    obtain ⟨⟨master, pk⟩, hr, rfl⟩ := Option.map_eq_some_iff.mp h
    obtain ⟨job, job', hj, hcases⟩ := MasterState.advance_cases hr
    exact advance_net hs hj hcases rfl hm hg
  | execute i stack heap =>
    obtain ⟨p, f, a, he⟩ := execute_cases h
    exact execute_net hs he
  | answer i stack =>
    obtain ⟨q, k, n, job, o, reply, t, hd⟩ := answer_cases hs h
    exact answer_net hs hd hm
  | loseRequest i =>
    exact lose_net hs (List.eraseIdx_sublist _ _) (List.Sublist.refl _) (Option.some.inj h).symm
  | loseAnswer i =>
    exact lose_net hs (List.Sublist.refl _) (List.eraseIdx_sublist _ _) (Option.some.inj h).symm
  | injectRequest m d => exact hg.elim
  | injectAnswer m d => exact hg.elim
  | disk m f => exact lose_net hs (List.Sublist.refl _) (List.Sublist.refl _) (Option.some.inj h).symm
  | restart m =>
    exact lose_net hs (List.Sublist.refl _) (List.Sublist.refl _) (Option.some.inj h).symm

end IoTDrive.System
