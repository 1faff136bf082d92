import IoTDrive.Master.ReadCompletion
import IoTDrive.Master.Routing

/-! Which slots of a ticket hear an answer. A proxy keeps one callback for a UID, so of the sends
of a request to one minion only the last has its callback for good: it waits until an answer
of the minion calls it. A send that a later one to its minion follows may lose its callback,
and does in the executions where all sends come before all answers. -/

namespace IoTDrive.Master

open Lib Message Stripe Exchange

/-- The call of `OnMirrorResponse` on a ticket that an answer has led to. -/
def Exchange.Delivery.callOn (ticket : ℕ) (c : Delivery) : Option Answer :=
  match c.outcome with
  | .invoke cb m => if cb.ticket = ticket then some ⟨cb.segIdx, cb.role, some m⟩ else none
  | _ => none

/-- The calls on a ticket, in their order. -/
def Exchange.callsOn (ticket : ℕ) (s : Exchange) : List Answer :=
  s.deliveries.reverse.filterMap (Delivery.callOn ticket)

variable {uid : UID} {ticket : ℕ} {ops : List SendOp} {proxies : ℕ → MinionProxy Callback}
  {o : SendOp} {s s' : Exchange} {e : Event} {k : ℕ}

/-! ### The calls on the ticket -/

theorem callsOn_answer {slot : ℕ} {m : AMessage} {w : MinionProxy.WakeUp Callback}
    {proxies' : ℕ → MinionProxy Callback} :
    callsOn ticket { s with
      proxies := proxies'
      answered := slot :: s.answered
      deliveries := ⟨slot, m, w⟩ :: s.deliveries } =
      s.callsOn ticket ++ (Delivery.callOn ticket ⟨slot, m, w⟩).toList := by
  unfold callsOn
  rw [List.reverse_cons, List.filterMap_append]
  cases h : Delivery.callOn ticket ⟨slot, m, w⟩ with
  | none => simp [h]
  | some a => simp [h]

/-- Where a callback is called, the answer was decoded. -/
theorem wakeUp_invoke {κ : Type*} {p : MinionProxy κ} {stack : ℕ → UInt8} {bytes : List UInt8}
    {m : AMessage} {cb : κ} (h : (p.onMinionFDWakeUp stack bytes).2 = .invoke cb m) :
    receive masterTypes stack bytes = .message m ∧ p.map m.getUID = some cb := by
  unfold MinionProxy.onMinionFDWakeUp at h
  split at h
  · cases h
  · cases h
  · cases h
  · cases h
  · next m' hrec =>
    cases hcb : p.map m'.getUID with
    | none =>
      rw [MinionProxy.dispatch_of_none hcb] at h
      cases h
    | some cb' =>
      rw [MinionProxy.dispatch_of_some hcb] at h
      cases h
      exact ⟨hrec, hcb⟩

/-- A callback is called with the answer that came. -/
def OwnAnswer (s : Exchange) : Prop :=
  ∀ c ∈ s.deliveries, ∀ cb m, c.outcome = .invoke cb m → m = c.answer

theorem ownAnswer_of_recorded (hlab : Labelled uid ops) (hs : Recorded ops s) : OwnAnswer s := by
  intro c hc cb m hout
  obtain ⟨o, w, bytes, stack, p, ho, ha, hwake⟩ := hs.genuine c hc
  obtain ⟨hrec, -⟩ := wakeUp_invoke (hwake.symm.trans hout)
  rcases (hlab o (List.mem_of_getElem? ho) w c.answer bytes ha).2 stack with hm | hm
  · rw [hm] at hrec
    exact (Receipt.message.inj hrec).symm
  · rw [hm] at hrec
    cases hrec

theorem callOn_eq_some {c : Delivery} {a : Answer} (h : Delivery.callOn ticket c = some a) :
    ∃ cb m, c.outcome = .invoke cb m ∧ a = ⟨cb.segIdx, cb.role, some m⟩ := by
  unfold Delivery.callOn at h
  cases hout : c.outcome with
  | invoke cb m =>
    rw [hout] at h
    simp only at h
    split_ifs at h
    exact ⟨cb, m, rfl, (Option.some.inj h).symm⟩
  | refused => rw [hout] at h; cases h
  | crash => rw [hout] at h; cases h
  | unknownUID m => rw [hout] at h; cases h

theorem allSucceed_callsOn (hs : OwnAnswer s)
    (hok : ∀ c ∈ s.deliveries, c.answer.getResult = true) : AllSucceed (s.callsOn ticket) := by
  intro a ha
  obtain ⟨c, hc, hcall⟩ := List.mem_filterMap.mp ha
  rw [List.mem_reverse] at hc
  obtain ⟨cb, m, hout, rfl⟩ := callOn_eq_some hcall
  show m.getResult = true
  rw [hs c hc cb m hout]
  exact hok c hc

/-! ### A send that no later one of its minion follows -/

/-- The send at the position is the last one to its minion. -/
def LastTo (ops : List SendOp) (j : ℕ) (o : SendOp) : Prop :=
  ops[j]? = some o ∧ ∀ i o', j < i → ops[i]? = some o' → o'.minion ≠ o.minion

/-- From such a send on its callback waits, until an answer of the minion calls it. -/
structure Kept (uid : UID) (ticket : ℕ) (ops : List SendOp) (s : Exchange) : Prop where
  answered : ∀ slot ∈ s.answered, slot < s.sent
  kept : ∀ j o, LastTo ops j o → j < s.sent → Arrived (s.callsOn ticket) o.segIdx o.role ∨
    j ∉ s.answered ∧ (s.proxies o.minion).map uid = some (o.onDone ticket)

theorem step_kept (hh : Heard uid ops) (h : step uid ticket ops s e = some s')
    (hs : Kept uid ticket ops s) : Kept uid ticket ops s' := by
  rcases step_cases h with ⟨o, ho, rfl⟩ | ⟨slot, o, w, m, bytes, stack, ho, hlt, -, ha, rfl⟩
  · refine ⟨fun slot hslot => Nat.lt_succ_of_lt (hs.answered slot hslot), ?_⟩
    intro j p hlast hj
    rcases Nat.lt_succ_iff_lt_or_eq.mp hj with hj | rfl
    · have hne : p.minion ≠ o.minion := (hlast.2 s.sent o hj ho).symm
      simp only [registerSend_of_ne _ hne]
      exact hs.kept j p hlast hj
    · obtain rfl : p = o := Option.some.inj (hlast.1.symm.trans ho)
      refine .inr ⟨fun hmem => Nat.lt_irrefl _ (hs.answered s.sent hmem), ?_⟩
      exact registerSend_self _
  · obtain ⟨hwake, huid⟩ := hh.wakeUp ho ha (s.proxies o.minion) stack
    rw [hwake]
    refine ⟨?_, ?_⟩
    · intro i hi
      rcases List.mem_cons.mp hi with rfl | hi
      · exact hlt
      · exact hs.answered i hi
    · intro j p hlast hj
      rw [callsOn_answer, arrived_append]
      rcases hs.kept j p hlast hj with harr | ⟨hna, hmap⟩
      · exact .inl (.inl harr)
      · by_cases hmin : p.minion = o.minion
        · -- the answer comes from this minion
          rw [hmin] at hmap
          rw [MinionProxy.dispatch_of_some (huid.symm ▸ hmap)]
          refine .inl (.inr ?_)
          simp [Delivery.callOn, SendOp.onDone, arrived_singleton]
        · refine .inr ⟨?_, ?_⟩
          · intro hmem
            rcases List.mem_cons.mp hmem with rfl | hmem
            · exact hmin (congrArg SendOp.minion (Option.some.inj (hlast.1.symm.trans ho)))
            · exact hna hmem
          · simp only [Function.update_of_ne hmin]
            exact hmap

/-! ### Each answer before the next send -/

/-- An answer that comes right behind its send meets the callback just registered. -/
theorem wakeUp_registered {uid : UID} {ticket : ℕ} (hlab : Labelled uid ops) {o : SendOp}
    (ho : o ∈ ops) {w : Surroundings} {m : AMessage} {bytes : List UInt8}
    (ha : o.answer w = some (m, bytes)) {proxies : ℕ → MinionProxy Callback} {stack : ℕ → UInt8}
    {cb : Callback} {m' : AMessage}
    (hout : ((registerSend uid ticket proxies o o.minion).onMinionFDWakeUp stack bytes).2 =
      .invoke cb m') : cb = o.onDone ticket := by
  obtain ⟨hrec, hcb⟩ := wakeUp_invoke hout
  obtain ⟨huid, hdec⟩ := hlab o ho w m bytes ha
  rcases hdec stack with hdec | hdec
  · rw [hdec] at hrec
    rw [← Receipt.message.inj hrec, huid] at hcb
    exact Option.some.inj (hcb.symm.trans (registerSend_self _))
  · rw [hdec] at hrec
    cases hrec

/-- An execution whose answers, successes to the first `k` sends, come before the next send: none
comes to the callback of another send. -/
theorem exists_run_rounds (uid : UID) (ticket : ℕ) (hlab : Labelled uid ops)
    (hall : ∀ o ∈ ops, ∃ w m bytes, o.answer w = some (m, bytes) ∧ m.getResult = true)
    {k j : ℕ} (hj : j ≤ ops.length) :
    ∃ events s, run (step uid ticket ops) (fun _ _ => True) events
        (start fun _ => MinionProxy.empty) = some s ∧
      s.sent = j ∧ (∀ slot, slot ∈ s.answered ↔ slot < j ∧ slot < k) ∧
      (∀ c ∈ s.deliveries, c.answer.getResult = true) ∧
      ∀ c ∈ s.deliveries, ∀ cb m, c.outcome = .invoke cb m →
        ∃ o, ops[c.slot]? = some o ∧ cb = o.onDone ticket := by
  induction j with
  | zero =>
    refine ⟨[], _, rfl, rfl, fun slot => ?_, ?_, ?_⟩
    · exact ⟨fun h => absurd h List.not_mem_nil, fun h => absurd h.1 (Nat.not_lt_zero slot)⟩
    · exact fun c hc => absurd hc List.not_mem_nil
    · exact fun c hc => absurd hc List.not_mem_nil
  | succ j ih =>
    obtain ⟨events, s, hrun, rfl, hans, hok, hown⟩ := ih (by omega)
    have hget : ops[s.sent]? = some ops[s.sent] := List.getElem?_eq_getElem (by omega)
    have hsent := run_snoc hrun trivial (step_send uid ticket s hget)
    by_cases hk : s.sent < k
    · obtain ⟨w, m, bytes, ha, hm⟩ := hall _ (List.mem_of_getElem? hget)
      have hna : s.sent ∉ s.answered := fun h => Nat.lt_irrefl _ ((hans _).mp h).1
      have hanswer := step_answer uid ticket
        { s with proxies := registerSend uid ticket s.proxies ops[s.sent], sent := s.sent + 1 }
        hget (Nat.lt_succ_self _) hna ha fun _ => 0
      refine ⟨_, _, run_snoc hsent trivial hanswer, rfl, fun slot => ?_, ?_, ?_⟩
      · rw [List.mem_cons, hans slot]
        omega
      · intro c hc
        rcases List.mem_cons.mp hc with rfl | hc
        · exact hm
        · exact hok c hc
      · intro c hc cb m' hout
        rcases List.mem_cons.mp hc with rfl | hc
        · exact ⟨_, hget, wakeUp_registered hlab (List.mem_of_getElem? hget) ha hout⟩
        · exact hown c hc cb m' hout
    · refine ⟨_, _, hsent, rfl, fun slot => ?_, hok, hown⟩
      rw [hans slot]
      omega

/-! ### A segment that no callback is left for -/

theorem registerAll_of_ne {m : ℕ} (h : ∀ o ∈ ops, o.minion ≠ m) :
    ops.foldl (registerSend uid ticket) proxies m = proxies m := by
  induction ops generalizing proxies with
  | nil => rfl
  | cons o ops ih =>
    rw [List.foldl_cons, ih fun o' ho' => h o' (.tail _ ho')]
    exact registerSend_of_ne _ (h o List.mem_cons_self).symm

/-- The proxy of a minion holds the callback of the last send to it. -/
theorem registerAll_last {pre post : List SendOp} (h : ∀ o' ∈ post, o'.minion ≠ o.minion) :
    (((pre ++ o :: post).foldl (registerSend uid ticket) proxies) o.minion).map uid =
      some (o.onDone ticket) := by
  rw [List.foldl_append, List.foldl_cons, registerAll_of_ne h]
  exact registerSend_self _

/-- A minion that was sent something was sent something last. -/
theorem exists_last {m : ℕ} (h : m ∈ ops.map SendOp.minion) :
    ∃ pre o post, ops = pre ++ o :: post ∧ o.minion = m ∧ ∀ o' ∈ post, o'.minion ≠ m := by
  induction ops with
  | nil => cases h
  | cons a ops ih =>
    by_cases hrest : m ∈ ops.map SendOp.minion
    · obtain ⟨pre, o, post, rfl, ho, hpost⟩ := ih hrest
      exact ⟨a :: pre, o, post, rfl, ho, hpost⟩
    · rw [List.map_cons, List.mem_cons] at h
      refine ⟨[], a, ops, rfl, (h.resolve_right hrest).symm, ?_⟩
      intro o' ho' heq
      exact hrest (heq ▸ List.mem_map_of_mem ho')

/-- After the loop, no callback for the segment waits, and none has been called. -/
structure Lost (uid : UID) (ticket : ℕ) (ops : List SendOp) (k : ℕ) (s : Exchange) : Prop where
  ended : s.sent = ops.length
  waiting : ∀ o ∈ ops, ∀ cb, (s.proxies o.minion).map uid = some cb → cb.segIdx ≠ k
  called : ∀ r, ¬ Arrived (s.callsOn ticket) k r

theorem lastTo_of_split (pre : List SendOp) {post : List SendOp}
    (h : ∀ o' ∈ post, o'.minion ≠ o.minion) :
    LastTo (pre ++ o :: post) pre.length o := by
  refine ⟨by simp, ?_⟩
  intro i o' hi ho'
  obtain ⟨l, hl⟩ : ∃ l, i - pre.length = l + 1 := ⟨i - pre.length - 1, by omega⟩
  rw [List.getElem?_append_right (by omega), hl, List.getElem?_cons_succ] at ho'
  exact h o' (List.mem_of_getElem? ho')

/-- When all sends have been made before any answer, only the last ones have left their
callbacks. -/
theorem lost_of_sends (proxies : ℕ → MinionProxy Callback)
    (h : ∀ j o, ops[j]? = some o → o.segIdx = k → ¬ LastTo ops j o) :
    Lost uid ticket ops k ⟨ops.foldl (registerSend uid ticket) proxies, ops.length, [], []⟩ := by
  refine ⟨rfl, ?_, ?_⟩
  · intro o ho cb hcb hseg
    obtain ⟨pre, p, post, rfl, hmin, hpost⟩ := exists_last (List.mem_map_of_mem ho)
    rw [← hmin] at hpost
    simp only [← hmin, registerAll_last hpost] at hcb
    obtain rfl := Option.some.inj hcb
    have hlast := lastTo_of_split pre hpost
    exact h _ p hlast.1 hseg hlast
  · rintro r ⟨a, ha, -⟩
    cases ha

theorem step_lost (hh : Heard uid ops) (h : step uid ticket ops s e = some s')
    (hs : Lost uid ticket ops k s) : Lost uid ticket ops k s' := by
  rcases step_cases h with ⟨o, ho, rfl⟩ | ⟨slot, o, w, m, bytes, stack, ho, -, -, ha, rfl⟩
  · rw [hs.ended, List.getElem?_eq_none (Nat.le_refl _)] at ho
    cases ho
  · have hmem := List.mem_of_getElem? ho
    obtain ⟨hwake, huid⟩ := hh.wakeUp ho ha (s.proxies o.minion) stack
    rw [hwake]
    cases hcb : (s.proxies o.minion).map uid with
    | none =>
      rw [MinionProxy.dispatch_of_none (huid.symm ▸ hcb)]
      refine ⟨hs.ended, ?_, ?_⟩
      · simp only [Function.update_eq_self]
        exact hs.waiting
      · intro r
        rw [callsOn_answer]
        simp only [Delivery.callOn, Option.toList_none, List.append_nil]
        exact hs.called r
    | some cb =>
      have hne := hs.waiting o hmem cb hcb
      rw [MinionProxy.dispatch_of_some (huid.symm ▸ hcb), huid]
      refine ⟨hs.ended, ?_, ?_⟩
      · intro p hp cb' hcb'
        by_cases hmin : p.minion = o.minion
        · simp [hmin] at hcb'
        · simp only [Function.update_of_ne hmin] at hcb'
          exact hs.waiting p hp cb' hcb'
      · intro r harr
        rw [callsOn_answer, arrived_append] at harr
        rcases harr with harr | harr
        · exact hs.called r harr
        · obtain ⟨a, ha, hseg, -⟩ := harr
          simp only [Delivery.callOn] at ha
          split_ifs at ha with ht
          · simp only [Option.toList_some, List.mem_singleton] at ha
            exact hne (by rw [← hseg, ha])
          · cases ha

end IoTDrive.Master
