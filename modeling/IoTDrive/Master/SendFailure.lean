import IoTDrive.Master.LastSend

/-! A read whose sends may fail. The loop of `AddReadTask` asks the primary and then the backup
of every segment, and `SendTo` throws where the socket refuses. Nothing in the loop catches
the exception, so the first refusal ends it: the mirrors behind it are never asked. The callback
of the refused send stays registered. -/

namespace IoTDrive.Master

open Lib Message Minion Stripe Exchange

/-- The calls of `MinionProxy::AddReadTask` that the loop begins, each of which registers its
callback; the datagrams that leave; and the exception that the command catches and logs. -/
structure Loop where
  begun : List SendOp
  sent : List SendOp
  thrown : Option String

/-- The loop, where `fails` tells the minions whose `SendTo` throws. -/
def sendLoop (fails : ℕ → Bool) : List SendOp → Loop
  | [] => ⟨[], [], none⟩
  | o :: ops =>
    if fails o.minion then ⟨[o], [], some "failed to sendto\n"⟩
    else
      let rest := sendLoop fails ops
      ⟨o :: rest.begun, o :: rest.sent, rest.thrown⟩

/-- The loop has ended, and exactly the datagrams that left have their answers, successes. -/
structure Exchange.AllAnswered (loop : Loop) (s : Exchange) : Prop where
  ended : s.sent = loop.begun.length
  answered : ∀ slot, slot ∈ s.answered ↔ slot < loop.sent.length
  success : ∀ c ∈ s.deliveries, c.answer.getResult = true

/-- The read survives the failures: every mirror whose send works is asked, and in every
execution, once all requests that left have their successful answers, the ticket has told its
listeners of a success. -/
def SurvivesFailures (M : MinionManager) (uid : UID) (offset length : ℕ) (fails : ℕ → Bool) : Prop :=
  ∀ t ops, addReadTask M uid offset length = .ok (t, ops) →
    (∀ o ∈ ops, fails o.minion = false → o ∈ (sendLoop fails ops).sent) ∧
      ∀ ticket proxies events s,
        run (step uid ticket (sendLoop fails ops).begun) (fun _ _ => True) events (start proxies) =
            some s →
          s.AllAnswered (sendLoop fails ops) →
          ∃ res ∈ t.notices (s.callsOn ticket), res.result = true

variable {fails : ℕ → Bool} {uid : UID} {ticket : ℕ} {ops : List SendOp}
  {proxies : ℕ → MinionProxy Callback} {o : SendOp} {s : Exchange} {k : ℕ}

/-! ### The loop -/

/-- What leaves: everything before the first refusal. -/
theorem sendLoop_sent (ops : List SendOp) :
    (sendLoop fails ops).sent = ops.takeWhile fun o => !fails o.minion := by
  induction ops with
  | nil => rfl
  | cons o ops ih =>
    unfold sendLoop
    cases hf : fails o.minion with
    | true => simp [hf]
    | false => simp [hf, ih]

/-- What registers its callback: that, and the refused send. -/
theorem sendLoop_begun (ops : List SendOp) :
    (sendLoop fails ops).begun = ops.take ((sendLoop fails ops).sent.length + 1) := by
  induction ops with
  | nil => rfl
  | cons o ops ih =>
    unfold sendLoop
    cases hf : fails o.minion with
    | true => rfl
    | false =>
      show o :: (sendLoop fails ops).begun = o :: ops.take ((sendLoop fails ops).sent.length + 1)
      rw [ih]

/-! ### Executions of the loop -/

/-- In an execution where all is answered, the slots of these sends have been called. -/
theorem arrived_of_lastTo {loop : Loop} {events : List Event} {j : ℕ}
    (hh : Heard uid loop.begun)
    (hrun : run (step uid ticket loop.begun) (fun _ _ => True) events (start proxies) = some s)
    (hall : s.AllAnswered loop) (hlast : LastTo loop.begun j o) (hj : j < loop.sent.length) :
    Arrived (s.callsOn ticket) o.segIdx o.role := by
  have hstart : Kept uid ticket loop.begun (start proxies) :=
    ⟨fun slot hslot => absurd hslot List.not_mem_nil, fun j o _ hj => absurd hj (Nat.not_lt_zero j)⟩
  have hkept := run_invariant (fun _ _ _ _ => step_kept hh) hrun hstart
  have hsent : j < s.sent := by
    rw [hall.ended]
    exact (List.getElem?_eq_some_iff.mp hlast.1).1
  exact (hkept.kept j o hlast hsent).resolve_right fun h => h.1 ((hall.answered j).mpr hj)

/-- Where each minion asked for a segment is asked for another one later, some execution hears
nothing of the segment. -/
theorem exists_run_lost {loop : Loop} (ticket k : ℕ) (hh : Heard uid loop.begun)
    (hok : ∀ o ∈ loop.begun, ∃ w m bytes, o.answer w = some (m, bytes) ∧ m.getResult = true)
    (hle : loop.sent.length ≤ loop.begun.length)
    (hlost : ∀ j o, loop.begun[j]? = some o → o.segIdx = k → ¬ LastTo loop.begun j o) :
    ∃ events s, run (step uid ticket loop.begun) (fun _ _ => True) events
        (start fun _ => MinionProxy.empty) = some s ∧
      s.AllAnswered loop ∧ ∀ r, ¬ Arrived (s.callsOn ticket) k r := by
  have hsends := run_sends uid ticket (fun _ => MinionProxy.empty) (Nat.le_refl loop.begun.length)
  rw [List.take_length] at hsends
  obtain ⟨events, s, ds, hrun, hsent, hans, hdel, hsuccess⟩ := exists_run_answers uid ticket
    (fun m => m.getResult = true) hok
    (s := ⟨loop.begun.foldl (registerSend uid ticket) fun _ => MinionProxy.empty,
      loop.begun.length, [], []⟩) rfl hle
  simp only [List.append_nil] at hdel
  refine ⟨List.replicate loop.begun.length .send ++ events, s, ?_,
    ⟨hsent, fun slot => ?_, fun c hc => hsuccess c (hdel ▸ hc)⟩, ?_⟩
  · rw [run_append, hsends]
    exact hrun
  · simp [hans slot]
  · exact (run_invariant (fun _ _ _ _ => step_lost hh) hrun (lost_of_sends _ hlost)).called

/-- Some execution hears nothing of a segment whose answers the master refuses. -/
theorem exists_run_refused {loop : Loop} (uid : UID) (ticket k : ℕ) (hlab : Labelled uid loop.begun)
    (hok : ∀ o ∈ loop.begun, ∃ w m bytes, o.answer w = some (m, bytes) ∧ m.getResult = true)
    (hle : loop.sent.length ≤ loop.begun.length)
    (hmis : ∀ o ∈ loop.begun, o.segIdx = k → ∀ w m bytes, o.answer w = some (m, bytes) →
      ∀ stack, receive masterTypes stack bytes = .mismatch) :
    ∃ events s, run (step uid ticket loop.begun) (fun _ _ => True) events
        (start fun _ => MinionProxy.empty) = some s ∧
      s.AllAnswered loop ∧ ∀ r, ¬ Arrived (s.callsOn ticket) k r := by
  obtain ⟨events, s, hrun, hsent, hans, hsuccess, hown⟩ := exists_run_rounds uid ticket hlab hok
    (k := loop.sent.length) (Nat.le_refl loop.begun.length)
  refine ⟨events, s, hrun, ⟨hsent, fun slot => ?_, hsuccess⟩, ?_⟩
  · rw [hans slot]
    omega
  · rintro r ⟨a, ha, hseg, -⟩
    obtain ⟨c, hc, hcall⟩ := List.mem_filterMap.mp ha
    rw [List.mem_reverse] at hc
    obtain ⟨cb, m, hout, rfl⟩ := callOn_eq_some hcall
    obtain ⟨o, ho, rfl⟩ := hown c hc cb m hout
    obtain ⟨o', w, bytes, stack, p, ho', ha', hwake⟩ := (run_recorded hrun).genuine c hc
    obtain rfl : o = o' := Option.some.inj (ho.symm.trans ho')
    obtain ⟨hrec, -⟩ := wakeUp_invoke (hwake.symm.trans hout)
    rw [hmis o (List.mem_of_getElem? ho) hseg w _ bytes ha' stack] at hrec
    cases hrec

/-! ### The sends of a read, by position -/

/-- The mirror that the send at a position of the loop asks. -/
def roleAt (j : ℕ) : MirrorRole := if j % 2 = 0 then .primary else .backup

theorem flatMap_pair_getElem? {α β : Type*} (f g : α → β) (l : List α) (j : ℕ) :
    (l.flatMap fun x => [f x, g x])[j]? = l[j / 2]?.map (if j % 2 = 0 then f else g) := by
  induction l generalizing j with
  | nil => simp
  | cons x l ih =>
    rw [List.flatMap_cons]
    match j with
    | 0 => rfl
    | 1 => rfl
    | j + 2 =>
      have hdiv : (j + 2) / 2 = j / 2 + 1 := by omega
      have hmod : (j + 2) % 2 = j % 2 := by omega
      rw [hdiv, hmod, List.getElem?_cons_succ, ← ih j]
      rfl

/-- The send at a position: the mirrors of the segments take turns. -/
theorem fanOut_getElem? {op : TicketOp} {data : List UInt8} {segs : List StripeSegment} {j : ℕ}
    (h : (fanOut op uid data segs)[j]? = some o) :
    ∃ s, segs[j / 2]? = some s ∧
      o = ⟨roleMinion s (roleAt j), j / 2, roleAt j, segmentMessage op uid data s⟩ := by
  unfold fanOut segmentSends at h
  rw [flatMap_pair_getElem?, List.getElem?_zipIdx] at h
  obtain ⟨p, hp, hsend⟩ := Option.map_eq_some_iff.mp h
  obtain ⟨s, hs, rfl⟩ := Option.map_eq_some_iff.mp hp
  refine ⟨s, hs, ?_⟩
  unfold roleAt
  split_ifs at hsend ⊢ with hj
  · rw [← hsend]
    simp [roleMinion]
  · rw [← hsend]
    simp [roleMinion]

theorem flatMap_pair_length {α β : Type*} (f g : α → β) (l : List α) :
    (l.flatMap fun x => [f x, g x]).length = 2 * l.length := by
  induction l with
  | nil => rfl
  | cons x l ih =>
    rw [List.flatMap_cons, List.length_append, ih, List.length_cons]
    simp only [List.length_cons, List.length_nil]
    omega

theorem fanOut_length (op : TicketOp) (uid : UID) (data : List UInt8) (segs : List StripeSegment) :
    (fanOut op uid data segs).length = 2 * segs.length := by
  unfold fanOut segmentSends
  rw [flatMap_pair_length, List.length_zipIdx]

/-- The send of a segment and a mirror stands at one of two positions. -/
theorem exists_fanOut_getElem? (op : TicketOp) (uid : UID) (data : List UInt8)
    {segs : List StripeSegment} {k : ℕ} {s : StripeSegment} (hs : segs[k]? = some s)
    (r : MirrorRole) :
    ∃ j, j / 2 = k ∧ roleAt j = r ∧ (fanOut op uid data segs)[j]? =
      some ⟨roleMinion s r, k, r, segmentMessage op uid data s⟩ := by
  obtain ⟨hk, -⟩ := List.getElem?_eq_some_iff.mp hs
  have key : ∀ j, j / 2 = k → (fanOut op uid data segs)[j]? =
      some ⟨roleMinion s (roleAt j), k, roleAt j, segmentMessage op uid data s⟩ := by
    intro j hj
    have hlt : j < (fanOut op uid data segs).length := by
      rw [fanOut_length]
      omega
    obtain ⟨s', hs', ho⟩ := fanOut_getElem? (List.getElem?_eq_getElem hlt)
    rw [hj] at hs' ho
    obtain rfl := Option.some.inj (hs.symm.trans hs')
    rw [List.getElem?_eq_getElem hlt, ho]
  cases r with
  | primary =>
    have hrole : roleAt (2 * k) = .primary := if_pos (by omega)
    exact ⟨2 * k, by omega, hrole, hrole ▸ key (2 * k) (by omega)⟩
  | backup =>
    have hrole : roleAt (2 * k + 1) = .backup := if_neg (by omega)
    exact ⟨2 * k + 1, by omega, hrole, hrole ▸ key (2 * k + 1) (by omega)⟩

/-! ### Sends that work, all but perhaps the last -/

/-- The sends before the last work. -/
def WorkButLast (fails : ℕ → Bool) (ops : List SendOp) : Prop :=
  ∀ o ∈ ops.dropLast, fails o.minion = false

/-- Then a send that works is reached. -/
theorem WorkButLast.lt_sent (h : WorkButLast fails ops) {j : ℕ} (ho : ops[j]? = some o)
    (hok : fails o.minion = false) : j < (sendLoop fails ops).sent.length := by
  rw [sendLoop_sent]
  rcases List.eq_nil_or_concat' ops with rfl | ⟨init, x, rfl⟩
  · cases ho
  · unfold WorkButLast at h
    rw [List.dropLast_concat] at h
    rw [List.takeWhile_append_of_pos (by simpa using h), List.length_append]
    rcases Nat.lt_or_ge j init.length with hj | hj
    · omega
    · obtain ⟨hlt, -⟩ := List.getElem?_eq_some_iff.mp ho
      rw [List.length_append, List.length_singleton] at hlt
      obtain rfl : j = init.length := by omega
      obtain rfl : x = o := by simpa using ho
      simp [hok]

/-- Then every call is begun. -/
theorem WorkButLast.begun (h : WorkButLast fails ops) : (sendLoop fails ops).begun = ops := by
  rw [sendLoop_begun, sendLoop_sent]
  rcases List.eq_nil_or_concat' ops with rfl | ⟨init, x, rfl⟩
  · rfl
  · unfold WorkButLast at h
    rw [List.dropLast_concat] at h
    rw [List.takeWhile_append_of_pos (by simpa using h), List.take_of_length_le]
    simp only [List.length_append, List.length_singleton]
    omega

theorem WorkButLast.sent_length_le (h : WorkButLast fails ops) :
    (sendLoop fails ops).sent.length ≤ (sendLoop fails ops).begun.length := by
  rw [h.begun, sendLoop_sent]
  exact (List.takeWhile_prefix _).length_le

theorem WorkButLast.mem_sent (h : WorkButLast fails ops) (ho : o ∈ ops)
    (hok : fails o.minion = false) : o ∈ (sendLoop fails ops).sent := by
  obtain ⟨j, hj⟩ := List.mem_iff_getElem?.mp ho
  have hlt := h.lt_sent hj hok
  rw [sendLoop_sent] at hlt ⊢
  have hpre := List.prefix_iff_getElem?.mp
    (List.takeWhile_prefix fun o : SendOp => !fails o.minion) j hlt
  rw [hj] at hpre
  rw [Option.some.inj hpre]
  exact List.getElem_mem hlt

/-- In terms of the segments: all primaries, and the backups of all segments but the last. -/
theorem workButLast_iff (segs : List StripeSegment) :
    WorkButLast fails (fanOut .read uid [] segs) ↔
      (∀ s ∈ segs, fails s.primaryMinionIndex = false) ∧
        ∀ s ∈ segs.dropLast, fails s.backupMinionIndex = false := by
  rcases List.eq_nil_or_concat' segs with rfl | ⟨init, last, rfl⟩
  · simp [WorkButLast, fanOut]
  have hfan : fanOut .read uid [] (init ++ [last]) = (fanOut .read uid [] init ++
      [⟨last.primaryMinionIndex, init.length, .primary, segmentMessage .read uid [] last⟩]) ++
      [⟨last.backupMinionIndex, init.length, .backup, segmentMessage .read uid [] last⟩] := by
    simp [fanOut, segmentSends, List.zipIdx_append]
  unfold WorkButLast
  rw [hfan, List.dropLast_concat, List.dropLast_concat]
  constructor
  · intro h
    have hmem : ∀ s ∈ init, ∀ r, fails (roleMinion s r) = false := by
      intro s hs r
      obtain ⟨k, hk⟩ := List.mem_iff_getElem?.mp hs
      exact h ⟨roleMinion s r, k, r, segmentMessage .read uid [] s⟩
        (List.mem_append_left _ (mem_fanOut.mpr ⟨s, hk, rfl, rfl⟩))
    refine ⟨?_, fun s hs => hmem s hs .backup⟩
    intro s hs
    rcases List.mem_append.mp hs with hs | hs
    · exact hmem s hs .primary
    · rw [List.mem_singleton.mp hs]
      exact h _ (List.mem_append_right _ (List.mem_singleton_self _))
  · rintro ⟨hp, hb⟩ o ho
    rcases List.mem_append.mp ho with ho | ho
    · obtain ⟨s, hs, hmin, -⟩ := mem_fanOut.mp ho
      have hmem := List.mem_of_getElem? hs
      rw [hmin]
      cases o.role with
      | primary => exact hp s (List.mem_append_left _ hmem)
      | backup => exact hb s hmem
    · rw [List.mem_singleton.mp ho]
      exact hp last (by simp)

/-- If every mirror whose send works is asked and every segment has one, then only the last
send may fail: the last segment is asked behind all others. -/
theorem workButLast_of_asked {segs : List StripeSegment}
    (hmirror : ∀ s ∈ segs, ∃ r, fails (roleMinion s r) = false)
    (hasked : ∀ o ∈ fanOut .read uid [] segs, fails o.minion = false →
      o ∈ (sendLoop fails (fanOut .read uid [] segs)).sent) :
    WorkButLast fails (fanOut .read uid [] segs) := by
  rcases List.eq_nil_or_concat' segs with rfl | ⟨init, last, hsegs⟩
  · intro o ho
    cases ho
  obtain ⟨r, hr⟩ := hmirror last (by simp [hsegs])
  have hlast : segs[init.length]? = some last := by simp [hsegs]
  obtain ⟨j, hj, -, hop⟩ := exists_fanOut_getElem? .read uid [] hlast r
  have hsent := hasked _ (List.mem_of_getElem? hop) hr
  rw [sendLoop_sent] at hsent
  obtain ⟨i, hi⟩ := List.mem_iff_getElem?.mp hsent
  obtain ⟨hlt, -⟩ := List.getElem?_eq_some_iff.mp hi
  have hfront : ∀ l, l < ((fanOut .read uid [] segs).takeWhile fun o => !fails o.minion).length →
      ((fanOut .read uid [] segs).takeWhile fun o => !fails o.minion)[l]? =
        (fanOut .read uid [] segs)[l]? := by
    intro l hl
    rw [List.prefix_iff_getElem?.mp (List.takeWhile_prefix _) l hl, List.getElem?_eq_getElem hl]
  -- the position of that request among those sent is one of the last two
  rw [hfront i hlt] at hi
  obtain ⟨s, -, ho⟩ := fanOut_getElem? hi
  have hidx : init.length = i / 2 := congrArg SendOp.segIdx ho
  have hlen : (fanOut .read uid [] segs).length = 2 * init.length + 2 := by
    rw [fanOut_length, hsegs, List.length_append, List.length_singleton]
    omega
  intro o ho
  obtain ⟨l, hl, hget⟩ := List.mem_iff_getElem.mp ho
  rw [List.length_dropLast] at hl
  rw [List.getElem_dropLast] at hget
  have hmem : o ∈ (fanOut .read uid [] segs).takeWhile fun o => !fails o.minion := by
    apply List.mem_of_getElem?
    rw [hfront l (by omega), List.getElem?_eq_getElem (by omega), hget]
  simpa using List.all_eq_true.mp List.all_takeWhile o hmem

section InRange

variable {M : MinionManager} {offset length : ℕ}

/-! ### The last send to a minion -/

/-- Unless the request meets every chunk of the drive, the last send to the primary of a
segment is the one that asks it for this segment. -/
theorem primary_last (h : M.InRange offset length)
    (hn : (M.segments offset length).length < M.numMinions) {i : ℕ} {o : SendOp}
    (ho : (fanOut .read uid [] (M.segments offset length))[2 * i]? = some o) :
    LastTo (fanOut .read uid [] (M.segments offset length)) (2 * i) o := by
  refine ⟨ho, ?_⟩
  intro j o' hij ho'
  obtain ⟨s, hs, rfl⟩ := fanOut_getElem? ho
  obtain ⟨s', hs', rfl⟩ := fanOut_getElem? ho'
  have hi2 : 2 * i / 2 = i := by omega
  have hrole : roleAt (2 * i) = .primary := if_pos (by omega)
  rw [hi2] at hs
  rw [hrole]
  have hp := MinionManager.segments_consecutive h hs
  have hp' := MinionManager.segments_consecutive h hs'
  obtain ⟨hj, -⟩ := List.getElem?_eq_some_iff.mp hs'
  obtain ⟨hseg', hlt', -⟩ := MinionManager.segments_mem h (List.mem_of_getElem? hs')
  show roleMinion s' (roleAt j) ≠ s.primaryMinionIndex
  unfold roleAt
  split_ifs with hj2
  · show s'.primaryMinionIndex ≠ s.primaryMinionIndex
    omega
  · show s'.backupMinionIndex ≠ s.primaryMinionIndex
    rw [hseg'.backup]
    rcases MinionManager.getBackupIndex_cases hlt' with ⟨hb, -⟩ | ⟨hb, hwrap⟩
    · omega
    · omega

/-- Where the request meets every chunk of a drive of two or more minions, each minion that a
mirror of the first segment asks is asked again later. -/
theorem first_segment_not_last (h : M.InRange offset length)
    (hn : (M.segments offset length).length = M.numMinions) (htwo : 2 ≤ M.numMinions) {j : ℕ}
    {o : SendOp} (hseg : o.segIdx = 0) :
    ¬ LastTo (fanOut .read uid [] (M.segments offset length)) j o := by
  rintro ⟨ho, hlater⟩
  have hex : ∀ k < M.numMinions, ∃ s, (M.segments offset length)[k]? = some s := by
    intro k hk
    exact ⟨_, List.getElem?_eq_getElem (hn.symm ▸ hk)⟩
  obtain ⟨last, hlast⟩ := hex (M.numMinions - 1) (by omega)
  have hplast := MinionManager.segments_consecutive h hlast
  obtain ⟨hseglast, hltlast, -⟩ := MinionManager.segments_mem h (List.mem_of_getElem? hlast)
  -- the request begins with the first chunk
  have hstart : offset / M.mbMinion = 0 := by
    rw [hplast] at hltlast
    generalize offset / M.mbMinion = q at hltlast ⊢
    omega
  obtain ⟨s, hs, rfl⟩ := fanOut_getElem? ho
  have hp := MinionManager.segments_consecutive h hs
  obtain ⟨hof, hlt, -⟩ := MinionManager.segments_mem h (List.mem_of_getElem? hs)
  have hdiv : j / 2 = 0 := hseg
  rw [hdiv] at hp
  rcases Nat.lt_or_ge j 1 with hj0 | hj1
  · -- the backup of the last segment is the first minion
    obtain ⟨i, hi, -, hget⟩ := exists_fanOut_getElem? .read uid [] hlast .backup
    refine hlater i _ (by omega) hget ?_
    have hrole : roleAt j = .primary := if_pos (by omega)
    rw [hrole]
    show last.backupMinionIndex = s.primaryMinionIndex
    rw [hseglast.backup]
    rcases MinionManager.getBackupIndex_cases hltlast with ⟨hb, hlt'⟩ | ⟨hb, -⟩
    · omega
    · omega
  · -- the primary of the second segment is the second minion
    obtain ⟨second, hsecond⟩ := hex 1 htwo
    have hpsecond := MinionManager.segments_consecutive h hsecond
    obtain ⟨i, hi, -, hget⟩ := exists_fanOut_getElem? .read uid [] hsecond .primary
    refine hlater i _ (by omega) hget ?_
    have hrole : roleAt j = .backup := if_neg (by omega)
    rw [hrole]
    show second.primaryMinionIndex = s.backupMinionIndex
    rw [hof.backup]
    rcases MinionManager.getBackupIndex_cases hlt with ⟨hb, -⟩ | ⟨hb, hwrap⟩
    · omega
    · omega

/-! ### Completion -/

theorem segments_length_le (h : M.InRange offset length) :
    (M.segments offset length).length ≤ M.numMinions := by
  rcases Nat.eq_zero_or_pos (M.segments offset length).length with hzero | hpos
  · omega
  · have hget := List.getElem?_eq_getElem
      (show (M.segments offset length).length - 1 < (M.segments offset length).length by omega)
    have hp := MinionManager.segments_consecutive h hget
    obtain ⟨-, hlt, -⟩ := MinionManager.segments_mem h (List.mem_of_getElem? hget)
    rw [hp] at hlt
    generalize offset / M.mbMinion = q at hlt
    omega

theorem readData : TicketOp.read = .write → ([] : List UInt8).length = length :=
  fun hop => nomatch hop

/-- A fresh minion answers a read with success. -/
theorem exists_answer_success (h : M.InRange offset length)
    (hans : ∀ s ∈ M.segments offset length, Answerable .read s) {o : SendOp}
    (ho : o ∈ fanOut .read uid [] (M.segments offset length)) :
    ∃ w m bytes, o.answer w = some (m, bytes) ∧ m.getResult = true := by
  obtain ⟨m, bytes, ha⟩ := exists_answer_fresh h readData hans ho
  refine ⟨freshMinion M, m, bytes, ha, ?_⟩
  obtain ⟨s, hs, -, hmsg⟩ := mem_fanOut.mp ho
  have hmem := List.mem_of_getElem? hs
  obtain ⟨d, hd, ha⟩ := Option.bind_eq_some_iff.mp ha
  rw [hmsg] at hd
  exact answer_read_result (segmentWords h hmem) (FileManager.init_serves [] M.mb_pos)
    (MinionManager.segments_mem h hmem).1.fits hd ha

/-- The callbacks of a read are called with the answers that came. -/
theorem WorkButLast.ownAnswer (h : M.InRange offset length)
    (hwork : WorkButLast fails (fanOut .read uid [] (M.segments offset length)))
    {events : List Event} (hrun : run (step uid ticket
        (sendLoop fails (fanOut .read uid [] (M.segments offset length))).begun)
      (fun _ _ => True) events (start proxies) = some s) : OwnAnswer s := by
  have hlab : Labelled uid (sendLoop fails (fanOut .read uid [] (M.segments offset length))).begun := by
    rw [hwork.begun]
    exact fanOut_labelled h readData
  exact ownAnswer_of_recorded hlab (run_recorded hrun)

/-- A read that survives hears each of its segments in every execution where all is answered. -/
theorem SurvivesFailures.arrived (hs : SurvivesFailures M uid offset length fails)
    (h : M.InRange offset length)
    (hwork : WorkButLast fails (fanOut .read uid [] (M.segments offset length)))
    {events : List Event} (hrun : run (step uid ticket
        (sendLoop fails (fanOut .read uid [] (M.segments offset length))).begun)
      (fun _ _ => True) events (start proxies) = some s)
    (hall : s.AllAnswered (sendLoop fails (fanOut .read uid [] (M.segments offset length)))) :
    M.segments offset length ≠ [] ∧
      ∀ k < (M.segments offset length).length, ∃ r, Arrived (s.callsOn ticket) k r := by
  obtain ⟨-, hdone⟩ := hs _ _ (addTask_inRange h .read uid [])
  have hown := WorkButLast.ownAnswer h hwork hrun
  exact (allSucceed_callsOn hown hall.success).notices_success_iff.mp
    (hdone ticket proxies events s hrun hall)

/-- Its answers fit the receive buffer, if the minions answer. -/
theorem SurvivesFailures.fits (hs : SurvivesFailures M uid offset length fails)
    (h : M.InRange offset length)
    (hwork : WorkButLast fails (fanOut .read uid [] (M.segments offset length)))
    (hans : ∀ s ∈ M.segments offset length, Answerable .read s) :
    M.segments offset length ≠ [] ∧ ∀ s ∈ M.segments offset length, s.length ≤ maxReadLength := by
  have key : ∀ k, (∀ s, (M.segments offset length)[k]? = some s → maxReadLength < s.length) →
      M.segments offset length ≠ [] ∧ ¬ k < (M.segments offset length).length := by
    intro k hlong
    have hmis : ∀ o ∈ (sendLoop fails (fanOut .read uid [] (M.segments offset length))).begun,
        o.segIdx = k → ∀ w m bytes, o.answer w = some (m, bytes) →
          ∀ stack, receive masterTypes stack bytes = .mismatch := by
      rw [hwork.begun]
      intro o ho hseg w m bytes ha stack
      obtain ⟨s, hs, -, hrec⟩ := fanOut_answer h readData ho ha
      rw [hrec stack, if_pos ⟨rfl, hlong s (hseg ▸ hs)⟩]
    obtain ⟨events, s, hrun, hall, hnone⟩ := exists_run_refused uid 0 k
      (by rw [hwork.begun]; exact fanOut_labelled h readData)
      (by rw [hwork.begun]; exact fun o ho => exists_answer_success h hans ho)
      hwork.sent_length_le hmis
    obtain ⟨hne, hheard⟩ := hs.arrived h hwork hrun hall
    refine ⟨hne, fun hk => ?_⟩
    obtain ⟨r, hr⟩ := hheard k hk
    exact hnone r hr
  constructor
  · refine (key (M.segments offset length).length fun s hs => ?_).1
    exact absurd (List.getElem?_eq_some_iff.mp hs).1 (Nat.lt_irrefl _)
  · intro s hmem
    by_contra hlong
    obtain ⟨k, hk⟩ := List.mem_iff_getElem?.mp hmem
    refine (key k fun s' hs' => ?_).2 (List.getElem?_eq_some_iff.mp hk).1
    obtain rfl : s = s' := Option.some.inj (hk.symm.trans hs')
    exact Nat.lt_of_not_le hlong

/-- Then it keeps a callback for each of its segments. -/
theorem SurvivesFailures.exists_lastTo (hs : SurvivesFailures M uid offset length fails)
    (h : M.InRange offset length)
    (hwork : WorkButLast fails (fanOut .read uid [] (M.segments offset length)))
    (hans : ∀ s ∈ M.segments offset length, Answerable .read s) :
    ∀ k < (M.segments offset length).length, ∃ j o,
      o.segIdx = k ∧ LastTo (fanOut .read uid [] (M.segments offset length)) j o := by
  intro k hk
  by_contra hno
  push Not at hno
  obtain ⟨-, hfit⟩ := hs.fits h hwork hans
  obtain ⟨events, s, hrun, hall, hnone⟩ := exists_run_lost 0 k
    (by rw [hwork.begun]; exact fanOut_heard h readData fun _ => hfit)
    (by rw [hwork.begun]; exact fun o ho => exists_answer_success h hans ho)
    hwork.sent_length_le (by rw [hwork.begun]; exact fun j o _ hseg => hno j o hseg)
  obtain ⟨r, hr⟩ := (hs.arrived h hwork hrun hall).2 k hk
  exact hnone r hr

/-- Unless all chunks of a drive of two or more minions are met, each segment has a send that
works and that no later one of its minion follows. -/
theorem exists_lastTo (h : M.InRange offset length)
    (hp : ∀ s ∈ M.segments offset length, fails s.primaryMinionIndex = false)
    (hn : (M.segments offset length).length < M.numMinions ∨ M.numMinions = 1)
    (hk : k < (M.segments offset length).length) :
    ∃ j o, LastTo (fanOut .read uid [] (M.segments offset length)) j o ∧ o.segIdx = k ∧
      fails o.minion = false := by
  obtain ⟨s, hs⟩ : ∃ s, (M.segments offset length)[k]? = some s :=
    ⟨_, List.getElem?_eq_getElem hk⟩
  rcases hn with hn | hone
  · obtain ⟨j, hj, hrole, hget⟩ := exists_fanOut_getElem? .read uid [] hs .primary
    have hj2 : j = 2 * k := by
      unfold roleAt at hrole
      split_ifs at hrole
      omega
    subst hj2
    exact ⟨2 * k, _, primary_last h hn hget, rfl, hp s (List.mem_of_getElem? hs)⟩
  · -- the only minion is asked twice for the only segment
    have hle := segments_length_le h
    obtain ⟨j, hj, hrole, hget⟩ := exists_fanOut_getElem? .read uid [] hs .backup
    have hodd : j % 2 = 1 := by
      unfold roleAt at hrole
      split_ifs at hrole
      omega
    refine ⟨j, _, ⟨hget, ?_⟩, rfl, ?_⟩
    · intro i o' hi ho'
      obtain ⟨hlt, -⟩ := List.getElem?_eq_some_iff.mp ho'
      rw [fanOut_length] at hlt
      omega
    · obtain ⟨-, hlt, hlt'⟩ := MinionManager.segments_mem h (List.mem_of_getElem? hs)
      have heq : s.backupMinionIndex = s.primaryMinionIndex := by omega
      show fails s.backupMinionIndex = false
      rw [heq]
      exact hp s (List.mem_of_getElem? hs)

/-- For a read each of whose segments has a mirror whose send works: every such mirror is asked
and the read completes exactly if no send but perhaps the backup's of the last segment fails, and
the read is not empty, does not meet all chunks of a drive of two or more minions and has answers
that fit the receive buffer; or if some segment is so long that no minion answers it. -/
theorem survivesFailures_iff (M : MinionManager) (uid : UID) (offset length : ℕ)
    (fails : ℕ → Bool) (h : M.InRange offset length)
    (hmirror : ∀ s ∈ M.segments offset length, ∃ r, fails (roleMinion s r) = false) :
    SurvivesFailures M uid offset length fails ↔
      (∀ s ∈ M.segments offset length, fails s.primaryMinionIndex = false) ∧
      (∀ s ∈ (M.segments offset length).dropLast, fails s.backupMinionIndex = false) ∧
      ((0 < length ∧ ((M.segments offset length).length < M.numMinions ∨ M.numMinions = 1) ∧
          ∀ s ∈ M.segments offset length, s.length ≤ maxReadLength) ∨
        ∃ s ∈ M.segments offset length, ¬ Answerable .read s) := by
  constructor
  · intro hs
    obtain ⟨hasked, -⟩ := hs _ _ (addTask_inRange h .read uid [])
    have hwork := workButLast_of_asked hmirror hasked
    obtain ⟨hp, hb⟩ := (workButLast_iff _).mp hwork
    refine ⟨hp, hb, ?_⟩
    by_cases hans : ∀ s ∈ M.segments offset length, Answerable .read s
    · obtain ⟨hne, hfit⟩ := hs.fits h hwork hans
      have hlast := hs.exists_lastTo h hwork hans
      have hpos : 0 < (M.segments offset length).length := List.length_pos_iff.mpr hne
      refine .inl ⟨?_, ?_, hfit⟩
      · rcases Nat.eq_zero_or_pos length with rfl | hl
        · exact absurd split_nil hne
        · exact hl
      · by_contra hfull
        have hle := segments_length_le h
        obtain ⟨j, o, hseg, hlast⟩ := hlast 0 hpos
        exact first_segment_not_last h (by omega) (by omega) hseg hlast
    · simp only [not_forall] at hans
      obtain ⟨s, hmem, hns⟩ := hans
      exact .inr ⟨s, hmem, hns⟩
  · rintro ⟨hp, hb, hcomplete⟩ t ops hok
    obtain ⟨-, rfl, rfl⟩ := addTask_ok hok
    have hwork : WorkButLast fails (fanOut .read uid [] (M.segments offset length)) :=
      (workButLast_iff _).mpr ⟨hp, hb⟩
    refine ⟨fun o ho hf => hwork.mem_sent ho hf, ?_⟩
    intro ticket proxies events s hrun hall
    rcases hcomplete with ⟨hl, hn, hfit⟩ | ⟨seg, hmem, hns⟩
    · have hh : Heard uid (fanOut .read uid [] (M.segments offset length)) :=
        fanOut_heard h readData fun _ => hfit
      have hown := WorkButLast.ownAnswer h hwork hrun
      refine (allSucceed_callsOn hown hall.success).notices_success_iff.mpr
        ⟨MinionManager.segments_ne_nil hl, ?_⟩
      intro k hk
      obtain ⟨j, o, hlast, rfl, hf⟩ := exists_lastTo h hp hn hk
      exact ⟨o.role, arrived_of_lastTo (hwork.begun.symm ▸ hh) hrun hall
        (hwork.begun.symm ▸ hlast) (hwork.lt_sent hlast.1 hf)⟩
    · -- the primary of the segment has answered nothing
      exfalso
      obtain ⟨k, hk⟩ := List.mem_iff_getElem?.mp hmem
      obtain ⟨j, -, -, hget⟩ := exists_fanOut_getElem? .read uid [] hk .primary
      have hanswered := (hall.answered j).mpr (hwork.lt_sent hget (hp seg hmem))
      have hrec := run_recorded hrun
      obtain ⟨c, hc, rfl⟩ := hrec.delivered j hanswered
      obtain ⟨o, w, bytes, stack, p, ho, ha, -⟩ := hrec.genuine c hc
      rw [hwork.begun] at ho
      obtain rfl := Option.some.inj (hget.symm.trans ho)
      exact hns (answerable_of_answer h readData hk rfl ha)

end InRange

/-- A read across the first chunk boundary of a drive of three minions, where only the backup
of the second segment refuses. -/
theorem survivesFailures_lastBackup :
    MinionManager.smallDrive.InRange 2 4 ∧
      SurvivesFailures MinionManager.smallDrive 7 2 4 fun m => decide (m = 2) := by
  have hsegs : MinionManager.smallDrive.segments 2 4 = [⟨2, 2, 0, 0, 1⟩, ⟨0, 2, 2, 1, 2⟩] :=
    split_crossing
  refine ⟨by decide, (survivesFailures_iff MinionManager.smallDrive 7 2 4 _ (by decide) ?_).mpr ?_⟩
  · rw [hsegs]
    intro s hs
    rcases List.mem_pair.mp hs with rfl | rfl
    · exact ⟨.primary, rfl⟩
    · exact ⟨.primary, rfl⟩
  · rw [hsegs]
    decide

/-- A read of the first chunk, whose primary refuses: the backup would answer, and is not
asked. -/
theorem refused_primary :
    MinionManager.smallDrive.InRange 0 4 ∧
      (∀ s ∈ MinionManager.smallDrive.segments 0 4,
        ∃ r, (fun m => decide (m = 0)) (roleMinion s r) = false) ∧
      ¬ SurvivesFailures MinionManager.smallDrive 7 0 4 fun m => decide (m = 0) := by
  have hin : MinionManager.smallDrive.InRange 0 4 := by decide
  have hsegs : MinionManager.smallDrive.segments 0 4 = [⟨0, 4, 0, 0, 1⟩] :=
    MinionManager.OneChunk.segments (by decide) hin
  refine ⟨hin, ?_, ?_⟩
  · rw [hsegs]
    intro s hs
    rw [List.mem_singleton.mp hs]
    exact ⟨.backup, rfl⟩
  · intro h
    obtain ⟨hasked, -⟩ := h _ _ (addTask_inRange hin .read 7 [])
    rw [hsegs] at hasked
    have hsent := hasked ⟨1, 0, .backup, segmentMessage .read 7 [] ⟨0, 4, 0, 0, 1⟩⟩ (by decide) rfl
    cases hsent

end IoTDrive.Master
