import IoTDrive.Lib.Transition
import IoTDrive.Master.Agreement
import IoTDrive.Master.Proxy

/-! The answers of one request on their way back to its ticket. All datagrams of a
request carry the request's UID, and a proxy keeps one callback for every UID. A
minion serves each datagram it was sent and answers; its proxy decodes the answer and
calls the callback that it holds then, or drops the answer: where it does not decode, and
where no callback waits. The sends of a request are performed in their order, and answers
come between them and behind them in any order. -/

namespace IoTDrive.Master

open Lib Message Minion Stripe

/-- The closure `[ticket, segIdx](msg)` that calls `ticket->OnMirrorResponse` with its
segment and role. Tickets are named by numbers. -/
structure Callback where
  ticket : ℕ
  segIdx : ℕ
  role : MirrorRole
  deriving DecidableEq, Repr

/-- The callback that a send registers. -/
def SendOp.onDone (o : SendOp) (ticket : ℕ) : Callback := ⟨ticket, o.segIdx, o.role⟩

/-- What an answer depends on besides the request: the memory behind the payload at the master,
the receive buffer and the heap of the minion, and its file. -/
structure Surroundings where
  beyond : ℕ → UInt8
  stack : ℕ → UInt8
  heap : ℕ → UInt8
  file : FileManager

/-- The answer of the minion to the datagram of a send: the message and its bytes. -/
def SendOp.answer (o : SendOp) (w : Surroundings) : Option (AMessage × List UInt8) :=
  (o.message.datagram w.beyond).bind (Minion.answer w.stack w.heap w.file)

/-- What the proxy did with the answer to the datagram of number `slot`. -/
structure Delivery where
  slot : ℕ
  answer : AMessage
  outcome : MinionProxy.WakeUp Callback

/-- One request between its first send and its last answer: how many of its sends have
been performed, which datagrams have been answered, and what came of the answers. -/
structure Exchange where
  proxies : ℕ → MinionProxy Callback
  sent : ℕ
  answered : List ℕ
  deliveries : List Delivery

namespace Exchange

inductive Event where
  | send
  | answer (slot : ℕ) (w : Surroundings) (stack : ℕ → UInt8)

/-- The next send registers its callback. The minion that a datagram went to answers it, each
datagram once, and the answer comes to the proxy of that minion. -/
def step (uid : UID) (ticket : ℕ) (ops : List SendOp) (s : Exchange) : Event → Option Exchange
  | .send =>
    ops[s.sent]?.map fun o =>
      { s with
        proxies := Function.update s.proxies o.minion
          ((s.proxies o.minion).register uid (o.onDone ticket))
        sent := s.sent + 1 }
  | .answer slot w stack =>
    if slot < s.sent ∧ slot ∉ s.answered then
      ops[slot]?.bind fun o => (o.answer w).map fun a =>
        let r := (s.proxies o.minion).onMinionFDWakeUp stack a.2
        { s with
          proxies := Function.update s.proxies o.minion r.1
          answered := slot :: s.answered
          deliveries := ⟨slot, a.1, r.2⟩ :: s.deliveries }
    else none

/-- Before the first send; the proxies may wait for answers to other requests. -/
def start (proxies : ℕ → MinionProxy Callback) : Exchange := ⟨proxies, 0, [], []⟩

variable {uid : UID} {ticket : ℕ} {ops : List SendOp} {s s' : Exchange} {e : Event} {o : SendOp}

/-- `m_map[uid] = onDone` of one send. -/
def registerSend (uid : UID) (ticket : ℕ) (proxies : ℕ → MinionProxy Callback) (o : SendOp) :
    ℕ → MinionProxy Callback :=
  Function.update proxies o.minion ((proxies o.minion).register uid (o.onDone ticket))

theorem registerSend_self (proxies : ℕ → MinionProxy Callback) :
    (registerSend uid ticket proxies o o.minion).map uid = some (o.onDone ticket) := by
  unfold registerSend
  rw [Function.update_self, MinionProxy.register_self]

theorem registerSend_of_ne {m : ℕ} (proxies : ℕ → MinionProxy Callback)
    (h : m ≠ o.minion) : registerSend uid ticket proxies o m = proxies m :=
  Function.update_of_ne h _ _

/-! ### Steps -/

theorem step_send (uid : UID) (ticket : ℕ) (s : Exchange) (ho : ops[s.sent]? = some o) :
    step uid ticket ops s .send =
      some { s with proxies := registerSend uid ticket s.proxies o, sent := s.sent + 1 } := by
  simp only [step, ho, Option.map_some, registerSend]

theorem step_answer (uid : UID) (ticket : ℕ) (s : Exchange) {slot : ℕ} {w : Surroundings}
    {m : AMessage} {bytes : List UInt8} (ho : ops[slot]? = some o) (hlt : slot < s.sent)
    (hna : slot ∉ s.answered) (ha : o.answer w = some (m, bytes)) (stack : ℕ → UInt8) :
    step uid ticket ops s (.answer slot w stack) = some { s with
      proxies := Function.update s.proxies o.minion
        ((s.proxies o.minion).onMinionFDWakeUp stack bytes).1
      answered := slot :: s.answered
      deliveries :=
        ⟨slot, m, ((s.proxies o.minion).onMinionFDWakeUp stack bytes).2⟩ :: s.deliveries } := by
  simp only [step, if_pos (And.intro hlt hna), ho, Option.bind_some, ha, Option.map_some]

/-- What a step can do: register the callback of the next send, or hand an answer to the proxy
of the minion whose datagram it answers. -/
theorem step_cases (h : step uid ticket ops s e = some s') :
    (∃ o, ops[s.sent]? = some o ∧
      s' = { s with proxies := registerSend uid ticket s.proxies o, sent := s.sent + 1 }) ∨
    ∃ slot o w m bytes stack, ops[slot]? = some o ∧ slot < s.sent ∧ slot ∉ s.answered ∧
      o.answer w = some (m, bytes) ∧ s' = { s with
        proxies := Function.update s.proxies o.minion
          ((s.proxies o.minion).onMinionFDWakeUp stack bytes).1
        answered := slot :: s.answered
        deliveries :=
          ⟨slot, m, ((s.proxies o.minion).onMinionFDWakeUp stack bytes).2⟩ :: s.deliveries } := by
  cases e with
  | send =>
    obtain ⟨o, ho, rfl⟩ := Option.map_eq_some_iff.mp h
    exact .inl ⟨o, ho, rfl⟩
  | answer slot w stack =>
    simp only [step] at h
    split_ifs at h with hg
    obtain ⟨o, ho, h⟩ := Option.bind_eq_some_iff.mp h
    obtain ⟨⟨m, bytes⟩, ha, rfl⟩ := Option.map_eq_some_iff.mp h
    exact .inr ⟨slot, o, w, m, bytes, stack, ho, hg.1, hg.2, ha, rfl⟩

/-- The answered datagrams have been sent, and each answer has come to something. -/
structure Recorded (ops : List SendOp) (s : Exchange) : Prop where
  sent : ∀ slot ∈ s.answered, slot < s.sent
  delivered : ∀ slot ∈ s.answered, ∃ c ∈ s.deliveries, c.slot = slot
  genuine : ∀ c ∈ s.deliveries, ∃ o w bytes stack p, ops[c.slot]? = some o ∧
    o.answer w = some (c.answer, bytes) ∧
    c.outcome = (MinionProxy.onMinionFDWakeUp p stack bytes).2

theorem step_recorded (h : step uid ticket ops s e = some s') (hs : Recorded ops s) :
    Recorded ops s' := by
  rcases step_cases h with ⟨o, -, rfl⟩ | ⟨slot, o, w, m, bytes, stack, ho, hlt, -, ha, rfl⟩
  · exact ⟨fun slot hslot => Nat.lt_succ_of_lt (hs.sent slot hslot), hs.delivered, hs.genuine⟩
  · refine ⟨?_, ?_, ?_⟩
    · intro i hi
      rcases List.mem_cons.mp hi with rfl | hi
      · exact hlt
      · exact hs.sent i hi
    · intro i hi
      rcases List.mem_cons.mp hi with rfl | hi
      · exact ⟨_, List.mem_cons_self, rfl⟩
      · obtain ⟨c, hc, hslot⟩ := hs.delivered i hi
        exact ⟨c, .tail _ hc, hslot⟩
    · intro c hc
      rcases List.mem_cons.mp hc with rfl | hc
      · exact ⟨o, w, bytes, stack, _, ho, ha, rfl⟩
      · exact hs.genuine c hc

theorem run_recorded {events : List Event} {proxies : ℕ → MinionProxy Callback}
    (h : run (step uid ticket ops) (fun _ _ => True) events (start proxies) = some s) :
    Recorded ops s := by
  refine run_invariant (fun _ _ _ _ => step_recorded) h ⟨?_, ?_, ?_⟩
  · exact fun slot hslot => absurd hslot List.not_mem_nil
  · exact fun slot hslot => absurd hslot List.not_mem_nil
  · exact fun c hc => absurd hc List.not_mem_nil

/-! ### Executions that come to an end -/

/-- Then the first datagrams can be answered, by messages of any kind that the minions answer
with. -/
theorem exists_run_answers (uid : UID) (ticket : ℕ) (ok : AMessage → Prop)
    (hall : ∀ o ∈ ops, ∃ w m bytes, o.answer w = some (m, bytes) ∧ ok m)
    (hs : s.sent = ops.length) {k : ℕ} (hk : k ≤ ops.length) :
    ∃ events s' ds, run (step uid ticket ops) (fun _ _ => True) events s = some s' ∧
      s'.sent = s.sent ∧ (∀ slot, slot ∈ s'.answered ↔ slot ∈ s.answered ∨ slot < k) ∧
      s'.deliveries = ds ++ s.deliveries ∧ ∀ c ∈ ds, ok c.answer := by
  induction k with
  | zero => exact ⟨[], s, [], rfl, rfl, by simp, rfl, fun c hc => absurd hc List.not_mem_nil⟩
  | succ k ih =>
    obtain ⟨events, s', ds, hrun, hsent, hans, hdel, hok⟩ := ih (by omega)
    by_cases hk' : k ∈ s.answered
    · refine ⟨events, s', ds, hrun, hsent, fun slot => ?_, hdel, hok⟩
      rw [hans slot, Nat.lt_succ_iff_lt_or_eq]
      constructor
      · rintro (h | h)
        · exact .inl h
        · exact .inr (.inl h)
      · rintro (h | h | rfl)
        · exact .inl h
        · exact .inr h
        · exact .inl hk'
    · have hget : ops[k]? = some ops[k] := List.getElem?_eq_getElem (by omega)
      obtain ⟨w, m, bytes, ha, hm⟩ := hall _ (List.mem_of_getElem? hget)
      have hna : k ∉ s'.answered := by
        rw [hans k]
        rintro (h | h)
        · exact hk' h
        · omega
      have hanswer := step_answer uid ticket s' hget (by omega) hna ha fun _ => 0
      refine ⟨_, _, _ :: ds, run_snoc hrun trivial hanswer, hsent, fun slot => ?_,
        by rw [hdel]; rfl, ?_⟩
      · rw [List.mem_cons, hans slot, Nat.lt_succ_iff_lt_or_eq]
        exact or_comm.trans or_assoc
      · intro c hc
        rcases List.mem_cons.mp hc with rfl | hc
        · exact hm
        · exact hok c hc

end Exchange

end IoTDrive.Master
