import IoTDrive.Master.Ticket

/-! Sequences of calls of `OnMirrorResponse` on one ticket. Until the ticket completes, its
segments hold what the calls so far have said, each slot the last of its answers. It
completes at the first call after which every segment is resolved, tells its listeners
then, and no later call changes it. -/

namespace IoTDrive.Master

open Message Stripe SegmentState

/-- A call of `OnMirrorResponse`. -/
structure Answer where
  segment : ℕ
  role : MirrorRole
  message : Option AMessage
  deriving DecidableEq, Repr

/-- An answer of the mirror has come for the segment. -/
def Arrived (as : List Answer) (k : ℕ) (r : MirrorRole) : Prop :=
  ∃ a ∈ as, a.segment = k ∧ a.role = r

instance (as : List Answer) (k : ℕ) (r : MirrorRole) : Decidable (Arrived as k r) :=
  inferInstanceAs (Decidable (∃ a ∈ as, _))

/-- The last answer of the mirror for the segment. -/
def latest (as : List Answer) (k : ℕ) (r : MirrorRole) : Option AMessage :=
  as.foldl (fun m a => if a.segment = k ∧ a.role = r then a.message else m) none

/-- A segment after the answers. -/
def heard (as : List Answer) (k : ℕ) (s : StripeSegment) : SegmentState where
  length := s.length
  bufferOffset := s.bufferOffset
  primaryDone := decide (Arrived as k .primary)
  backupDone := decide (Arrived as k .backup)
  primaryMsg := latest as k .primary
  backupMsg := latest as k .backup

/-- At most one answer for each segment and mirror. -/
def Distinct (as : List Answer) : Prop := (as.map fun a => (a.segment, a.role)).Nodup

instance (as : List Answer) : Decidable (Distinct as) := inferInstanceAs (Decidable (List.Nodup _))

variable {as p q rest : List Answer} {a : Answer} {k : ℕ} {r : MirrorRole} {s : StripeSegment}

/-! ### What the answers say -/

theorem arrived_append : Arrived (as ++ q) k r ↔ Arrived as k r ∨ Arrived q k r := by
  unfold Arrived
  constructor
  · rintro ⟨a, ha, h⟩
    rcases List.mem_append.mp ha with ha | ha
    · exact .inl ⟨a, ha, h⟩
    · exact .inr ⟨a, ha, h⟩
  · rintro (⟨a, ha, h⟩ | ⟨a, ha, h⟩)
    · exact ⟨a, List.mem_append_left q ha, h⟩
    · exact ⟨a, List.mem_append_right as ha, h⟩

theorem arrived_singleton : Arrived [a] k r ↔ a.segment = k ∧ a.role = r := by simp [Arrived]

theorem latest_concat :
    latest (as ++ [a]) k r = if a.segment = k ∧ a.role = r then a.message else latest as k r := by
  unfold latest
  rw [List.foldl_append]
  rfl

theorem latest_eq_none (h : ¬ Arrived as k r) : latest as k r = none := by
  induction as using List.reverseRecOn with
  | nil => rfl
  | append_singleton as a ih =>
    rw [arrived_append, arrived_singleton] at h
    rw [latest_concat, if_neg (fun hr => h (.inr hr))]
    exact ih fun ha => h (.inl ha)

/-- The last answer is one of the answers. -/
theorem exists_latest (h : Arrived as k r) :
    ∃ a ∈ as, a.segment = k ∧ a.role = r ∧ latest as k r = a.message := by
  induction as using List.reverseRecOn with
  | nil =>
    obtain ⟨a, ha, -⟩ := h
    cases ha
  | append_singleton as a ih =>
    rw [latest_concat]
    by_cases ha : a.segment = k ∧ a.role = r
    · exact ⟨a, by simp, ha.1, ha.2, if_pos ha⟩
    · rw [arrived_append, arrived_singleton] at h
      obtain ⟨b, hb, hk, hr, hl⟩ := ih (h.resolve_right ha)
      exact ⟨b, List.mem_append_left _ hb, hk, hr, by rw [if_neg ha, hl]⟩

theorem Distinct.append_left (h : Distinct (as ++ q)) : Distinct as := by
  unfold Distinct at h ⊢
  rw [List.map_append] at h
  exact (List.nodup_append.mp h).1

theorem Distinct.front (h : Distinct (p ++ a :: rest)) : Distinct (p ++ [a]) := by
  rw [List.append_cons] at h
  exact h.append_left

/-- What holds of all answers holds of those up to one of them. -/
theorem forall_front {P : Answer → Prop} (h : ∀ b ∈ p ++ a :: rest, P b) : ∀ b ∈ p ++ [a], P b := by
  rw [List.append_cons] at h
  exact fun b hb => h b (List.mem_append_left rest hb)

/-- Among distinct answers each is the last of its slot. -/
theorem Distinct.latest_eq (h : Distinct as) (ha : a ∈ as) :
    latest as a.segment a.role = a.message := by
  obtain ⟨b, hb, hk, hr, hl⟩ := exists_latest ⟨a, ha, rfl, rfl⟩
  have hab : b = a := List.inj_on_of_nodup_map h hb ha (by rw [hk, hr])
  rw [hl, hab]

/-- Later answers are for other slots. -/
theorem Distinct.latest_append (h : Distinct (as ++ q)) (ha : Arrived as k r) :
    latest (as ++ q) k r = latest as k r := by
  obtain ⟨a, ha, rfl, rfl⟩ := ha
  rw [h.latest_eq (List.mem_append_left q ha), h.append_left.latest_eq ha]

theorem Distinct.perm (h : Distinct as) (hp : as.Perm q) : Distinct q :=
  (hp.map _).nodup_iff.mp h

theorem arrived_perm (hp : as.Perm q) : Arrived as k r ↔ Arrived q k r := by
  unfold Arrived
  constructor
  · rintro ⟨a, ha, h⟩
    exact ⟨a, hp.mem_iff.mp ha, h⟩
  · rintro ⟨a, ha, h⟩
    exact ⟨a, hp.mem_iff.mpr ha, h⟩

theorem Distinct.latest_perm (h : Distinct as) (hp : as.Perm q) (k : ℕ) (r : MirrorRole) :
    latest as k r = latest q k r := by
  by_cases ha : Arrived as k r
  · obtain ⟨a, ha, rfl, rfl⟩ := ha
    rw [h.latest_eq ha, (h.perm hp).latest_eq (hp.mem_iff.mp ha)]
  · rw [latest_eq_none ha, latest_eq_none (fun hq => ha ((arrived_perm hp).mpr hq))]

/-! ### The segments -/

theorem heard_concat :
    heard (as ++ [a]) k s =
      if a.segment = k then (heard as k s).record a.role a.message else heard as k s := by
  obtain ⟨segment, role, message⟩ := a
  simp only [heard, arrived_append, arrived_singleton, latest_concat]
  by_cases hk : segment = k
  · cases role with
    | primary => simp [hk, record]
    | backup => simp [hk, record]
  · simp [hk]

namespace Ticket

variable (uid : UID) (op : TicketOp) (n : ℕ) (segs : List StripeSegment)

/-- A ticket that the answers have not completed. -/
def waiting (as : List Answer) : Ticket where
  uid := uid
  op := op
  totalLength := n
  segments := segs.mapIdx fun k s => heard as k s
  completed := false
  listeners := 0

/-- Every segment is resolved by the answers. -/
def resolvedBy (as : List Answer) : Bool :=
  (segs.mapIdx fun k s => heard as k s).all (isSegmentResolved op)

/-- No answer so far has left all segments resolved. -/
def Undecided (as : List Answer) : Prop :=
  ∀ p, p <+: as → resolvedBy op segs p = false

/-- The answer `a` after the answers `p` is the first that leaves all segments resolved. -/
def Decides (p : List Answer) (a : Answer) : Prop :=
  Undecided op segs p ∧ resolvedBy op segs (p ++ [a]) = true

/-- The call. -/
def answer (t : Ticket) (a : Answer) : Ticket × Option TaskResult :=
  t.onMirrorResponse a.segment a.role a.message

/-- The ticket after the calls. -/
def after (t : Ticket) (as : List Answer) : Ticket := as.foldl (fun t a => (t.answer a).1) t

/-- What the listeners are told at the call `a` after the calls `p`. -/
def notice (t : Ticket) (p : List Answer) (a : Answer) : Option TaskResult :=
  ((t.after p).answer a).2

/-- All that the listeners are told. -/
def notices (t : Ticket) : List Answer → List TaskResult
  | [] => []
  | a :: as => (t.answer a).2.toList ++ notices (t.answer a).1 as

variable {uid op n segs}

theorem after_append (t : Ticket) (p q : List Answer) : t.after (p ++ q) = (t.after p).after q :=
  List.foldl_append

theorem after_concat (t : Ticket) (p : List Answer) (a : Answer) :
    t.after (p ++ [a]) = ((t.after p).answer a).1 := after_append t p [a]

theorem notices_append (t : Ticket) (p q : List Answer) :
    t.notices (p ++ q) = t.notices p ++ (t.after p).notices q := by
  induction p generalizing t with
  | nil => rfl
  | cons a p ih =>
    show (t.answer a).2.toList ++ notices (t.answer a).1 (p ++ q) = _
    rw [ih, ← List.append_assoc]
    rfl

theorem notices_concat (t : Ticket) (p : List Answer) (a : Answer) :
    t.notices (p ++ [a]) = t.notices p ++ (t.notice p a).toList := by
  rw [notices_append]
  show t.notices p ++ ((t.notice p a).toList ++ []) = _
  rw [List.append_nil]

/-! ### A completed ticket -/

theorem after_completed {t : Ticket} (h : t.completed = true) (as : List Answer) :
    t.after as = t ∧ t.notices as = [] := by
  induction as with
  | nil => exact ⟨rfl, rfl⟩
  | cons a as ih =>
    have hstep : t.answer a = (t, none) := onMirrorResponse_completed h
    show (t.answer a).1.after as = t ∧ (t.answer a).2.toList ++ notices (t.answer a).1 as = []
    rw [hstep]
    exact ih

/-- The ticket that has told its listeners is complete. -/
theorem notice_completed {t : Ticket} {res : TaskResult} (h : t.notice p a = some res) :
    (t.after (p ++ [a])).completed = true := by
  have hstep : (t.after p).answer a = (t.after (p ++ [a]), some res) := by
    rw [after_concat, ← h]
    rfl
  exact (onMirrorResponse_some hstep).2.1

/-- Once the listeners have been told, nothing changes. -/
theorem after_notice {t : Ticket} {res : TaskResult} (h : t.notice p a = some res)
    (as : List Answer) :
    t.after (p ++ a :: as) = t.after (p ++ [a]) ∧ (t.after (p ++ [a])).notices as = [] := by
  rw [List.append_cons, after_append]
  exact after_completed (notice_completed h) as

theorem notices_length_le (t : Ticket) (as : List Answer) : (t.notices as).length ≤ 1 := by
  induction as generalizing t with
  | nil => exact Nat.zero_le _
  | cons a as ih =>
    cases hn : (t.answer a).2 with
    | none =>
      show ((t.answer a).2.toList ++ notices (t.answer a).1 as).length ≤ 1
      rw [hn]
      exact ih _
    | some res =>
      have h := (after_notice (t := t) (p := []) hn as).2
      show ((t.answer a).2.toList ++ notices (t.answer a).1 as).length ≤ 1
      rw [hn]
      have hrest : notices (t.answer a).1 as = [] := h
      rw [hrest]
      exact Nat.le_refl 1

/-! ### Up to completion -/

theorem waiting_nil : waiting uid op n segs [] = create uid op n segs := by
  unfold waiting create
  congr 1
  apply List.ext_getElem?
  intro k
  rw [List.getElem?_mapIdx, List.getElem?_map]
  rfl

theorem waiting_store (as : List Answer) (a : Answer) :
    (waiting uid op n segs as).store a.segment a.role a.message =
      waiting uid op n segs (as ++ [a]) := by
  unfold waiting store
  congr 1
  apply List.ext_getElem?
  intro k
  simp only [List.getElem?_modify, List.getElem?_mapIdx, heard_concat]
  cases segs[k]? with
  | none => rfl
  | some s =>
    by_cases hk : a.segment = k
    · simp [hk]
    · simp [hk]

/-- An answer for no segment says nothing. -/
theorem waiting_ignored (uid : UID) (op : TicketOp) (n : ℕ) (as : List Answer)
    (h : segs.length ≤ a.segment) :
    waiting uid op n segs (as ++ [a]) = waiting uid op n segs as := by
  rw [← waiting_store]
  unfold store
  rw [List.modify_eq_self (by simpa [waiting] using h)]

theorem resolvedBy_eq (uid : UID) (n : ℕ) (as : List Answer) :
    (waiting uid op n segs as).segments.all (isSegmentResolved op) = resolvedBy op segs as := rfl

theorem answer_waiting (p : List Answer) (a : Answer) (hu : resolvedBy op segs p = false) :
    (waiting uid op n segs p).answer a =
      if resolvedBy op segs (p ++ [a]) = true then
        ({ waiting uid op n segs (p ++ [a]) with completed := true },
          some (waiting uid op n segs (p ++ [a])).outcome)
      else (waiting uid op n segs (p ++ [a]), none) := by
  unfold answer
  rcases onMirrorResponse_cases (waiting uid op n segs p) a.segment a.role a.message with
    ⟨h, e⟩ | ⟨-, -, ⟨h, e⟩ | ⟨h, e⟩⟩
  · have hout : segs.length ≤ a.segment := by
      rcases h with h | h
      · cases h
      · simpa [waiting] using h
    have hsame := waiting_ignored uid op n p hout
    have hres : resolvedBy op segs (p ++ [a]) = false := by
      rw [← resolvedBy_eq uid n, hsame]
      exact hu
    rw [e, hres, hsame]
    rfl
  · rw [waiting_store] at h e
    rw [e, if_neg]
    exact fun hr => Bool.false_ne_true (h.symm.trans hr)
  · rw [waiting_store] at h e
    rw [e, if_pos]
    exact h

theorem Undecided.of_start (h : Undecided op segs q) (hp : p <+: q) : Undecided op segs p :=
  fun p' hp' => h p' (hp'.trans hp)

theorem undecided_concat :
    Undecided op segs (p ++ [a]) ↔ Undecided op segs p ∧ resolvedBy op segs (p ++ [a]) = false := by
  constructor
  · intro h
    exact ⟨h.of_start (List.prefix_append p [a]), h _ (List.prefix_refl _)⟩
  · rintro ⟨h, hr⟩ p' hp'
    rcases List.prefix_concat_iff.mp hp' with rfl | hp'
    · exact hr
    · exact h p' hp'

/-- As long as no answer decides, the ticket waits. -/
theorem after_undecided (h : Undecided op segs q) :
    (create uid op n segs).after q = waiting uid op n segs q := by
  induction q using List.reverseRecOn with
  | nil => exact waiting_nil.symm
  | append_singleton p a ih =>
    obtain ⟨hp, hr⟩ := undecided_concat.mp h
    rw [after_concat, ih hp, answer_waiting p a (hp p (List.prefix_refl p)), hr]
    rfl

theorem notice_undecided (h : Undecided op segs (p ++ [a])) :
    (create uid op n segs).notice p a = none := by
  obtain ⟨hp, hr⟩ := undecided_concat.mp h
  unfold notice
  rw [after_undecided hp, answer_waiting p a (hp p (List.prefix_refl p)), hr]
  rfl

theorem notice_decides (uid : UID) (n : ℕ) (h : Decides op segs p a) :
    (create uid op n segs).notice p a = some (waiting uid op n segs (p ++ [a])).outcome := by
  unfold notice
  rw [after_undecided h.1, answer_waiting p a (h.1 p (List.prefix_refl p)), if_pos h.2]

theorem undecided_nil (h : segs ≠ []) : Undecided op segs [] := by
  intro p hp
  rw [List.prefix_nil.mp hp, ← resolvedBy_eq 0 0, waiting_nil]
  exact create_unresolved 0 op 0 h

/-- A request without segments is never decided. -/
theorem Decides.segs_ne_nil (h : Decides op segs p a) : segs ≠ [] := by
  rintro rfl
  exact Bool.false_ne_true (h.1 p (List.prefix_refl p)).symm

/-- Answers that have resolved all segments have a first that did. -/
theorem exists_decides (hne : segs ≠ []) (h : ¬ Undecided op segs q) :
    ∃ p a rest, q = p ++ a :: rest ∧ Decides op segs p a := by
  induction q using List.reverseRecOn with
  | nil => exact absurd (undecided_nil hne) h
  | append_singleton q b ih =>
    by_cases hq : Undecided op segs q
    · refine ⟨q, b, [], rfl, hq, ?_⟩
      cases hr : resolvedBy op segs (q ++ [b]) with
      | true => rfl
      | false => exact absurd (undecided_concat.mpr ⟨hq, hr⟩) h
    · obtain ⟨p, a, rest, rfl, hd⟩ := ih hq
      exact ⟨p, a, rest ++ [b], by simp, hd⟩

/-- After the deciding answer the listeners are told nothing more. -/
theorem notice_decided (h : ¬ Undecided op segs p) : (create uid op n segs).notice p a = none := by
  by_cases hne : segs = []
  · subst hne
    have hafter : ∀ q, ((create uid op n []).after q) = create uid op n [] := by
      intro q
      induction q with
      | nil => rfl
      | cons b q ih => exact ih
    unfold notice
    rw [hafter]
    rfl
  · obtain ⟨q, b, rest, rfl, hd⟩ := exists_decides hne h
    have hnotice := notice_decides uid n hd
    unfold notice
    rw [(after_notice hnotice rest).1]
    exact congrArg Prod.snd (onMirrorResponse_completed (notice_completed hnotice))

/-- The listeners are told exactly at the deciding answer, and then the outcome of what has
been heard. -/
theorem notice_eq_some_iff {res : TaskResult} :
    (create uid op n segs).notice p a = some res ↔
      Decides op segs p a ∧ res = (waiting uid op n segs (p ++ [a])).outcome := by
  by_cases hp : Undecided op segs p
  · cases hr : resolvedBy op segs (p ++ [a]) with
    | true =>
      rw [notice_decides uid n ⟨hp, hr⟩, Option.some.injEq, eq_comm]
      exact ⟨fun h => ⟨⟨hp, hr⟩, h⟩, fun h => h.2⟩
    | false =>
      rw [notice_undecided (undecided_concat.mpr ⟨hp, hr⟩)]
      simp [Decides, hr]
  · rw [notice_decided hp]
    simp [Decides, hp]

/-! ### Whole sequences -/

theorem notices_undecided (h : Undecided op segs q) : (create uid op n segs).notices q = [] := by
  induction q using List.reverseRecOn with
  | nil => rfl
  | append_singleton p a ih =>
    rw [notices_concat, ih (undecided_concat.mp h).1, notice_undecided h]
    rfl

theorem notices_decides (h : Decides op segs p a) (rest : List Answer) :
    (create uid op n segs).notices (p ++ a :: rest) =
      [(waiting uid op n segs (p ++ [a])).outcome] := by
  have hnotice := notice_decides uid n h
  rw [List.append_cons, notices_append, (after_notice hnotice rest).2, notices_concat, hnotice,
    notices_undecided h.1]
  rfl

/-- What the listeners of a new ticket are told in all: nothing, or the outcome at the deciding
answer. -/
theorem notices_cases (uid : UID) (op : TicketOp) (n : ℕ) (segs : List StripeSegment)
    (q : List Answer) :
    (create uid op n segs).notices q = [] ∧ (¬ ∃ p a rest, q = p ++ a :: rest ∧ Decides op segs p a) ∨
      ∃ p a rest, q = p ++ a :: rest ∧ Decides op segs p a ∧
        (create uid op n segs).notices q = [(waiting uid op n segs (p ++ [a])).outcome] := by
  by_cases hd : ∃ p a rest, q = p ++ a :: rest ∧ Decides op segs p a
  · obtain ⟨p, a, rest, rfl, hd⟩ := hd
    exact .inr ⟨p, a, rest, rfl, hd, notices_decides hd rest⟩
  · refine .inl ⟨?_, hd⟩
    induction q using List.reverseRecOn with
    | nil => rfl
    | append_singleton q b ih =>
      have hnotice : (create uid op n segs).notice q b = none := by
        cases hres : (create uid op n segs).notice q b with
        | none => rfl
        | some res => exact absurd ⟨q, b, [], rfl, (notice_eq_some_iff.mp hres).1⟩ hd
      rw [notices_concat, hnotice, ih]
      · rfl
      · rintro ⟨p, a, rest, rfl, hdec⟩
        exact hd ⟨p, a, rest ++ [b], by simp, hdec⟩

/-- A segment of a waiting ticket. -/
theorem all_waiting_iff {f : SegmentState → Bool} (q : List Answer) :
    (segs.mapIdx fun k s => heard q k s).all f = true ↔
      ∀ (k : ℕ) (s : StripeSegment), segs[k]? = some s → f (heard q k s) = true := by
  rw [List.all_eq_true]
  constructor
  · intro h k s hs
    apply h
    rw [List.mem_iff_getElem?]
    exact ⟨k, by rw [List.getElem?_mapIdx, hs]; rfl⟩
  · intro h g hg
    obtain ⟨k, hk⟩ := List.mem_iff_getElem?.mp hg
    rw [List.getElem?_mapIdx] at hk
    obtain ⟨s, hs, rfl⟩ := Option.map_eq_some_iff.mp hk
    exact h k s hs

theorem resolvedBy_iff (q : List Answer) :
    resolvedBy op segs q = true ↔ ∀ (k : ℕ) (s : StripeSegment), segs[k]? = some s →
      isSegmentResolved op (heard q k s) = true := all_waiting_iff q

end Ticket

/-! ### Resolved segments -/

theorem succeeded_arrived (h : succeeded (latest as k r) = true) : Arrived as k r := by
  by_contra hn
  rw [latest_eq_none hn] at h
  cases h

theorem resolved_write_iff :
    isSegmentResolved .write (heard as k s) = true ↔ ∀ r, Arrived as k r := by
  simp only [isSegmentResolved, heard, Bool.and_eq_true, decide_eq_true_eq]
  constructor
  · rintro ⟨hp, hb⟩ r
    cases r with
    | primary => exact hp
    | backup => exact hb
  · intro h
    exact ⟨h .primary, h .backup⟩

theorem resolved_read_iff :
    isSegmentResolved .read (heard as k s) = true ↔
      succeeded (latest as k .primary) = true ∨ Arrived as k .backup := by
  cases hp : succeeded (latest as k .primary) with
  | true => simp [isSegmentResolved, heard, hp, succeeded_arrived hp]
  | false => simp [isSegmentResolved, heard, hp]

/-- Among distinct answers, a resolved segment stays resolved. -/
theorem Distinct.resolved_append {op : TicketOp} (h : Distinct (as ++ q))
    (hr : isSegmentResolved op (heard as k s) = true) :
    isSegmentResolved op (heard (as ++ q) k s) = true := by
  cases op with
  | read =>
    rw [resolved_read_iff] at hr ⊢
    rcases hr with hp | hb
    · left
      rw [h.latest_append (succeeded_arrived hp)]
      exact hp
    · exact .inr (arrived_append.mpr (.inl hb))
  | write =>
    rw [resolved_write_iff] at hr ⊢
    exact fun r => arrived_append.mpr (.inl (hr r))

/-- Among distinct answers, the last prefix tells whether one of them has decided. -/
theorem Distinct.undecided_iff {op : TicketOp} {segs : List StripeSegment} (h : Distinct as) :
    Ticket.Undecided op segs as ↔ Ticket.resolvedBy op segs as = false := by
  constructor
  · intro hu
    exact hu as (List.prefix_refl as)
  · rintro hr p ⟨q, rfl⟩
    by_contra hp
    rw [Bool.not_eq_false, Ticket.resolvedBy_iff] at hp
    apply Bool.false_ne_true
    rw [← hr, Ticket.resolvedBy_iff]
    exact fun k s hs => h.resolved_append (hp k s hs)

theorem Distinct.heard_perm (h : Distinct as) (hp : as.Perm q) : heard as k s = heard q k s := by
  simp only [heard, h.latest_perm hp, arrived_perm hp]

/-- Whether some answer decides does not depend on the order of distinct answers. -/
theorem Distinct.exists_decides_perm {op : TicketOp} {segs : List StripeSegment} (h : Distinct as)
    (hp : as.Perm q) (hd : ∃ p a rest, as = p ++ a :: rest ∧ Ticket.Decides op segs p a) :
    ∃ p a rest, q = p ++ a :: rest ∧ Ticket.Decides op segs p a := by
  obtain ⟨p, a, rest, heq, hdec⟩ := hd
  apply Ticket.exists_decides hdec.segs_ne_nil
  rw [(h.perm hp).undecided_iff, Bool.not_eq_false, Ticket.resolvedBy_iff]
  intro k s hs
  rw [← h.heard_perm hp]
  rw [heq, List.append_cons] at h ⊢
  exact h.resolved_append ((Ticket.resolvedBy_iff _).mp hdec.2 k s hs)

/-- Distinct answers in any order lead to one result, if the outcomes agree at all prefixes
that resolve the segments. -/
theorem Distinct.notices_perm {uid : UID} {op : TicketOp} {n : ℕ} {segs : List StripeSegment}
    (h : Distinct as) (hp : as.Perm q)
    (hout : ∀ l l', l <+: as → l' <+: q → Ticket.resolvedBy op segs l = true →
      Ticket.resolvedBy op segs l' = true →
      (Ticket.waiting uid op n segs l).outcome = (Ticket.waiting uid op n segs l').outcome) :
    (Ticket.create uid op n segs).notices as = (Ticket.create uid op n segs).notices q := by
  rcases Ticket.notices_cases uid op n segs as with ⟨hnil, hno⟩ | ⟨p, a, rest, heq, hdec, hn⟩
  · rcases Ticket.notices_cases uid op n segs q with ⟨hnil', -⟩ | ⟨p', a', rest', heq', hdec', -⟩
    · rw [hnil, hnil']
    · exact absurd ((h.perm hp).exists_decides_perm hp.symm ⟨p', a', rest', heq', hdec'⟩) hno
  · rcases Ticket.notices_cases uid op n segs q with ⟨-, hno⟩ | ⟨p', a', rest', heq', hdec', hn'⟩
    · exact absurd (h.exists_decides_perm hp ⟨p, a, rest, heq, hdec⟩) hno
    · rw [hn, hn', hout (p ++ [a]) (p' ++ [a']) ⟨rest, by simp [heq]⟩ ⟨rest', by simp [heq']⟩
        hdec.2 hdec'.2]

theorem Distinct.decides_iff {op : TicketOp} {segs : List StripeSegment} (h : Distinct (p ++ [a])) :
    Ticket.Decides op segs p a ↔
      Ticket.resolvedBy op segs p = false ∧ Ticket.resolvedBy op segs (p ++ [a]) = true := by
  unfold Ticket.Decides
  rw [h.append_left.undecided_iff]

end IoTDrive.Master
