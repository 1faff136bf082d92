import IoTDrive.Master.Exchange

/-! Which answers of a request find their slots. A minion that serves two segments of a
request, or both mirrors of one, is sent two datagrams; the second registration replaces
the first, so an answer that comes after it reaches the wrong slot and the next one
reaches none. An answer that the receive buffer cuts reaches no slot at all. So answers
find their slots in every order exactly when the request names no minion twice and its
answers fit. -/

namespace IoTDrive.Master

open Lib Message Minion Stripe

namespace Exchange

end Exchange

open Exchange

namespace Exchange
variable {uid : UID} {ticket : ℕ} {ops : List SendOp}

/-- The master decodes each answer to what was answered, under the UID of the request. -/
def Heard (uid : UID) (ops : List SendOp) : Prop :=
  ∀ o ∈ ops, ∀ w m bytes, o.answer w = some (m, bytes) →
    m.getUID = uid ∧ ∀ stack, receive masterTypes stack bytes = .message m

/-- Then the proxy looks for its callback. -/
theorem Heard.wakeUp (hh : Heard uid ops) {o : SendOp} {slot : ℕ} (ho : ops[slot]? = some o)
    {w : Surroundings} {m : AMessage} {bytes : List UInt8} (ha : o.answer w = some (m, bytes))
    (p : MinionProxy Callback) (stack : ℕ → UInt8) :
    p.onMinionFDWakeUp stack bytes = p.dispatch m ∧ m.getUID = uid := by
  obtain ⟨huid, hrec⟩ := hh o (List.mem_of_getElem? ho) w m bytes ha
  refine ⟨?_, huid⟩
  unfold MinionProxy.onMinionFDWakeUp
  rw [hrec stack]

theorem minion_ne (hn : (ops.map SendOp.minion).Nodup) {i j : ℕ} {o p : SendOp}
    (hi : ops[i]? = some o) (hj : ops[j]? = some p) (hij : i ≠ j) : o.minion ≠ p.minion := by
  intro he
  apply hij
  have hlt : i < (ops.map SendOp.minion).length := by
    simpa using (List.getElem?_eq_some_iff.mp hi).1
  refine (List.getElem?_inj hlt hn).mp ?_
  rw [List.getElem?_map, List.getElem?_map, hi, hj, Option.map_some, Option.map_some, he]

/-- Some sends, before any answer. -/
theorem run_sends (uid : UID) (ticket : ℕ) (proxies : ℕ → MinionProxy Callback) {j : ℕ}
    (hj : j ≤ ops.length) :
    run (step uid ticket ops) (fun _ _ => True) (List.replicate j .send) (start proxies) =
      some ⟨(ops.take j).foldl (registerSend uid ticket) proxies, j, [], []⟩ := by
  induction j with
  | zero => rfl
  | succ j ih =>
    have hget : ops[j]? = some ops[j] := List.getElem?_eq_getElem (by omega)
    rw [List.replicate_succ', run_concat, ih (by omega), List.take_add_one, hget,
      List.foldl_append]
    simp only [Option.bind_some, if_true, step, hget, Option.map_some]
    rfl

/-- Every answer has the UID of the request, and comes as what was answered or is refused. -/
def Labelled (uid : UID) (ops : List SendOp) : Prop :=
  ∀ o ∈ ops, ∀ w m bytes, o.answer w = some (m, bytes) → m.getUID = uid ∧
    ∀ stack, receive masterTypes stack bytes = .message m ∨
      receive masterTypes stack bytes = .mismatch

end Exchange

/-! ### The answers to a request -/

section FanOut
variable {M : MinionManager} {op : TicketOp} {uid : UID} {offset length : ℕ} {data : List UInt8}

/-- What the master makes of an answer to a send of a request. -/
theorem fanOut_answer (h : M.InRange offset length) (hdata : op = .write → data.length = length)
    {o : SendOp} (ho : o ∈ fanOut op uid data (M.segments offset length)) {w : Surroundings}
    {m : AMessage} {bytes : List UInt8} (ha : o.answer w = some (m, bytes)) :
    ∃ s, (M.segments offset length)[o.segIdx]? = some s ∧ m.getUID = uid ∧
      ∀ stack, receive masterTypes stack bytes =
        if op = .read ∧ maxReadLength < s.length then .mismatch else .message m := by
  obtain ⟨s, hs, -, hmsg⟩ := mem_fanOut.mp ho
  have hmem := List.mem_of_getElem? hs
  have hw := segmentWords h hmem
  obtain ⟨d, hd, ha⟩ := Option.bind_eq_some_iff.mp ha
  rw [hmsg] at hd
  refine ⟨s, hs, ?_⟩
  cases op with
  | read =>
    obtain ⟨huid, -, hrec⟩ := answer_read hw hd ha
    refine ⟨huid, fun stack => ?_⟩
    rw [hrec stack]
    split_ifs with h₁ h₂ h₂
    · omega
    · rfl
    · rfl
    · exact absurd ⟨rfl, Nat.lt_of_not_le h₁⟩ h₂
  | write =>
    obtain ⟨huid, -, hrec⟩ := answer_write hw (slice_length_of_mem h (hdata rfl) hmem) hd ha
    refine ⟨huid, fun stack => ?_⟩
    rw [hrec stack, if_neg]
    rintro ⟨hop, -⟩
    cases hop

/-- A fresh minion with cleared memory. -/
def freshMinion (M : MinionManager) : Surroundings :=
  ⟨fun _ => 0, fun _ => 0, fun _ => 0, FileManager.init [] M.mbMinion M.mb_pos⟩

/-- It answers the requests of answerable segments. -/
theorem exists_answer_fresh (h : M.InRange offset length)
    (hdata : op = .write → data.length = length)
    (hans : ∀ s ∈ M.segments offset length, Answerable op s) {o : SendOp}
    (ho : o ∈ fanOut op uid data (M.segments offset length)) :
    ∃ m bytes, o.answer (freshMinion M) = some (m, bytes) := by
  obtain ⟨s, hs, -, hmsg⟩ := mem_fanOut.mp ho
  have hmem := List.mem_of_getElem? hs
  obtain ⟨d, m, bytes, hd, ha⟩ := exists_answer uid (segmentWords h hmem)
    (fun hop => slice_length_of_mem h (hdata hop) hmem) (hans s hmem) (freshMinion M).beyond
    (freshMinion M).stack (freshMinion M).heap (freshMinion M).file
  refine ⟨m, bytes, ?_⟩
  unfold SendOp.answer
  rw [hmsg, hd]
  exact ha

/-- No minion answers the request of another segment. -/
theorem answerable_of_answer (h : M.InRange offset length)
    (hdata : op = .write → data.length = length) {o : SendOp}
    {s : StripeSegment} (hs : (M.segments offset length)[o.segIdx]? = some s)
    (hmsg : o.message = segmentMessage op uid data s) {w : Surroundings}
    {a : AMessage × List UInt8} (ha : o.answer w = some a) : Answerable op s := by
  have hmem := List.mem_of_getElem? hs
  have hw := segmentWords h hmem
  obtain ⟨d, hd, ha⟩ := Option.bind_eq_some_iff.mp ha
  rw [hmsg] at hd
  cases op with
  | read => exact (answer_read hw hd ha).2.1
  | write => exact (answer_write hw (slice_length_of_mem h (hdata rfl) hmem) hd ha).2.1

theorem fanOut_labelled (h : M.InRange offset length)
    (hdata : op = .write → data.length = length) :
    Labelled uid (fanOut op uid data (M.segments offset length)) := by
  intro o ho w m bytes ha
  obtain ⟨s, -, huid, hrec⟩ := fanOut_answer h hdata ho ha
  refine ⟨huid, fun stack => ?_⟩
  rw [hrec stack]
  split_ifs
  · exact .inr rfl
  · exact .inl rfl

/-- The answers fit. -/
theorem fanOut_heard (h : M.InRange offset length) (hdata : op = .write → data.length = length)
    (hfit : op = .read → ∀ s ∈ M.segments offset length, s.length ≤ maxReadLength) :
    Heard uid (fanOut op uid data (M.segments offset length)) := by
  intro o ho w m bytes ha
  obtain ⟨s, hs, huid, hrec⟩ := fanOut_answer h hdata ho ha
  refine ⟨huid, fun stack => ?_⟩
  rw [hrec stack, if_neg]
  rintro ⟨hop, hlt⟩
  exact Nat.not_le.mpr hlt (hfit hop s (List.mem_of_getElem? hs))

theorem fanOut_minions (segs : List StripeSegment) :
    (fanOut op uid data segs).map SendOp.minion =
      segs.flatMap fun s => [s.primaryMinionIndex, s.backupMinionIndex] := by
  rw [fanOut, List.map_flatMap]
  conv_rhs => rw [← List.zipIdx_map_fst 0 segs, List.flatMap_map]
  rfl

/-- No two sends of a request report to one slot. -/
theorem fanOut_slots_nodup (op : TicketOp) (uid : UID) (data : List UInt8)
    (segs : List StripeSegment) :
    ((fanOut op uid data segs).map fun o => (o.segIdx, o.role)).Nodup := by
  rw [fanOut, List.map_flatMap, List.nodup_flatMap]
  refine ⟨fun p _ => by simp [segmentSends], ?_⟩
  have hidx : (segs.zipIdx.map Prod.snd).Nodup := by
    rw [List.zipIdx_map_snd]
    exact List.nodup_range'
  refine (List.pairwise_map.mp hidx).imp fun {p q} hpq => ?_
  intro x hx hy
  simp only [segmentSends, List.map_cons, List.map_nil, List.mem_cons, List.not_mem_nil,
    or_false] at hx hy
  apply hpq
  rcases hx with rfl | rfl <;> rcases hy with hy | hy <;> exact congrArg Prod.fst hy

theorem segments_nil_or_single (h : M.InRange offset length) (hl : 0 < length)
    (hs : (M.segments offset length).length ≤ 1) : M.OneChunk offset length := by
  have hranges := MinionManager.segments_ranges h
  match hsegs : M.segments offset length, hs with
  | [], _ =>
    rw [hsegs] at hranges
    have := congrArg List.length hranges
    simp at this
    omega
  | [s], _ =>
    have hseg := (MinionManager.segments_mem h (s := s) (by simp [hsegs])).1
    rw [hsegs, List.flatMap_singleton] at hranges
    have hlen : s.length = length := by simpa using congrArg List.length hranges
    have hbuf : s.bufferOffset = 0 := by have := hseg.within; omega
    have hfits := hseg.fits
    rw [hseg.localOffset, hbuf, hlen, Nat.add_zero] at hfits
    exact ⟨hl, hfits⟩

/-- The second segment's primary is the first one's mirror. -/
theorem mirror_of_next (h : M.InRange offset length) {s s' : StripeSegment}
    {rest : List StripeSegment} (hs : M.segments offset length = s :: s' :: rest) :
    s.backupMinionIndex = s'.primaryMinionIndex := by
  have h0 := MinionManager.segments_consecutive h (show (M.segments offset length)[0]? = some s by
    simp [hs])
  have h1 := MinionManager.segments_consecutive h (show (M.segments offset length)[1]? = some s' by
    simp [hs])
  obtain ⟨hseg, hlt, -⟩ := MinionManager.segments_mem h (s := s) (by simp [hs])
  obtain ⟨-, hlt', -⟩ := MinionManager.segments_mem h (s := s') (by simp [hs])
  rw [hseg.backup]
  rcases MinionManager.getBackupIndex_cases hlt with ⟨e, -⟩ | ⟨-, e⟩ <;> omega

/-- A request names no minion twice exactly when it is empty, or stays inside one chunk
of a drive with a second minion. -/
theorem minions_nodup_iff (h : M.InRange offset length) :
    ((fanOut op uid data (M.segments offset length)).map SendOp.minion).Nodup ↔
      length = 0 ∨ 2 ≤ M.numMinions ∧ M.OneChunk offset length := by
  rw [fanOut_minions]
  rcases Nat.eq_zero_or_pos length with rfl | hl
  · simp [MinionManager.segments, split_nil]
  by_cases hone : M.OneChunk offset length
  · have hlt : offset / M.mbMinion < M.numMinions := MinionManager.div_lt_numMinions
      (by simp only [MinionManager.InRange] at h; omega)
    rw [hone.segments h]
    simp [← MinionManager.getBackupIndex_ne_iff hlt, hone, hl.ne']
  · have htwo : 2 ≤ (M.segments offset length).length := by
      by_contra hlt
      exact hone (segments_nil_or_single h hl (by omega))
    rcases hsegs : M.segments offset length with _ | ⟨s, _ | ⟨s', rest⟩⟩
    · simp [hsegs] at htwo
    · simp [hsegs] at htwo
    · have he := mirror_of_next h hsegs
      simp [he, hone, hl.ne']

end FanOut

end IoTDrive.Master
