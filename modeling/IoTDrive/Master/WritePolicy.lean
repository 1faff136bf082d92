import IoTDrive.Master.ReadPolicy

/-! When a write is acknowledged. A segment of a write is resolved by the answers of both
mirrors, whatever they say, so the ticket waits for all of them; it reports a success if all
are successes, and no data. -/

namespace IoTDrive.Master

open Message Stripe SegmentState

/-- Both mirrors of every segment have answered. -/
def AllAnswered (segs : List StripeSegment) (as : List Answer) : Prop :=
  ∀ k < segs.length, ∀ r, Arrived as k r

/-- The mirror has answered for the segment, with a success. -/
def Acknowledged (as : List Answer) (k : ℕ) (r : MirrorRole) : Prop :=
  ∃ a ∈ as, a.segment = k ∧ a.role = r ∧ succeeded a.message = true

instance (as : List Answer) (k : ℕ) (r : MirrorRole) : Decidable (Acknowledged as k r) :=
  inferInstanceAs (Decidable (∃ a ∈ as, _))

variable {as p q bs : List Answer} {a : Answer} {k n : ℕ} {r : MirrorRole} {s : StripeSegment}
  {segs : List StripeSegment} {uid : UID}

theorem Distinct.acknowledged_iff (h : Distinct as) :
    Acknowledged as k r ↔ succeeded (latest as k r) = true := by
  constructor
  · rintro ⟨a, ha, rfl, rfl, hok⟩
    rw [h.latest_eq ha]
    exact hok
  · intro hok
    obtain ⟨a, ha, hk, hr, hl⟩ := exists_latest (succeeded_arrived hok)
    exact ⟨a, ha, hk, hr, hl ▸ hok⟩

theorem resolvedBy_write_iff : Ticket.resolvedBy .write segs q = true ↔ AllAnswered segs q := by
  rw [Ticket.resolvedBy_iff]
  constructor
  · intro h k hk
    exact resolved_write_iff.mp (h k _ (List.getElem?_eq_getElem hk))
  · intro h k s hs
    obtain ⟨hk, -⟩ := List.getElem?_eq_some_iff.mp hs
    exact resolved_write_iff.mpr (h k hk)

theorem Distinct.successful_write_iff (h : Distinct q) :
    isSegmentSuccessful .write (heard q k s) = true ↔ ∀ r, Acknowledged q k r := by
  unfold isSegmentSuccessful
  simp only [heard, Bool.and_eq_true, ← h.acknowledged_iff]
  constructor
  · rintro ⟨hp, hb⟩ r
    cases r with
    | primary => exact hp
    | backup => exact hb
  · intro hall
    exact ⟨hall .primary, hall .backup⟩

/-- The outcome of a write is a success exactly if all its answers are. -/
theorem Distinct.write_success_iff (h : Distinct q) (uid : UID) (n : ℕ)
    (segs : List StripeSegment) :
    (Ticket.waiting uid .write n segs q).outcome.result = true ↔
      ∀ k < segs.length, ∀ r, Acknowledged q k r := by
  show (segs.mapIdx fun k s => heard q k s).all (isSegmentSuccessful .write) = true ↔ _
  rw [Ticket.all_waiting_iff]
  constructor
  · intro hall k hk
    exact h.successful_write_iff.mp (hall k _ (List.getElem?_eq_getElem hk))
  · intro hall k s hs
    obtain ⟨hk, -⟩ := List.getElem?_eq_some_iff.mp hs
    exact h.successful_write_iff.mpr (hall k hk)

/-- The outcome of a write carries no data. -/
theorem write_outcome_eq (uid : UID) (n : ℕ) (segs : List StripeSegment) (q : List Answer) :
    (Ticket.waiting uid .write n segs q).outcome =
      ⟨uid, (Ticket.waiting uid .write n segs q).outcome.result, n, none⟩ := by
  simp [Ticket.outcome, Ticket.waiting]

/-- The listeners of a write are told at the answer that completes the answers of all
mirrors. -/
theorem Distinct.write_notice_iff (hd : Distinct (p ++ [a])) {res : TaskResult} :
    (Ticket.create uid .write n segs).notice p a = some res ↔
      ¬ AllAnswered segs p ∧ AllAnswered segs (p ++ [a]) ∧ res.uid = uid ∧ res.length = n ∧
        res.buffer = none ∧
        (res.result = true ↔ ∀ k < segs.length, ∀ r, Acknowledged (p ++ [a]) k r) := by
  have hdec : Ticket.Decides .write segs p a ↔ ¬ AllAnswered segs p ∧ AllAnswered segs (p ++ [a]) := by
    rw [hd.decides_iff, resolvedBy_write_iff, ← Bool.not_eq_true, resolvedBy_write_iff]
  obtain ⟨uid', result, length, buffer⟩ := res
  rw [Ticket.notice_eq_some_iff, hdec, and_assoc, ← hd.write_success_iff uid n segs,
    ← Bool.eq_iff_iff, write_outcome_eq]
  simp only [TaskResult.mk.injEq]
  constructor
  · rintro ⟨hp, ha, huid, hresult, hlength, hbuffer⟩
    exact ⟨hp, ha, huid, hlength, hbuffer, hresult⟩
  · rintro ⟨hp, ha, huid, hlength, hbuffer, hresult⟩
    exact ⟨hp, ha, huid, hresult, hlength, hbuffer⟩

/-! ### Arrival order -/

/-- Among distinct answers, what a mirror has answered it has answered for good. -/
theorem Distinct.acknowledged_append (hd : Distinct (p ++ q)) (ha : Arrived p k r) :
    Acknowledged (p ++ q) k r ↔ Acknowledged p k r := by
  rw [hd.acknowledged_iff, hd.append_left.acknowledged_iff, hd.latest_append ha]

theorem acknowledged_perm (hp : as.Perm bs) : Acknowledged as k r ↔ Acknowledged bs k r := by
  unfold Acknowledged
  constructor
  · rintro ⟨a, ha, h⟩
    exact ⟨a, hp.mem_iff.mp ha, h⟩
  · rintro ⟨a, ha, h⟩
    exact ⟨a, hp.mem_iff.mpr ha, h⟩

/-- Once all mirrors have answered, the whole sequence says whether the write has succeeded. -/
theorem Distinct.write_success_append (hd : Distinct (p ++ q)) (hall : AllAnswered segs p) :
    (Ticket.waiting uid .write n segs p).outcome.result = true ↔
      ∀ k < segs.length, ∀ r, Acknowledged (p ++ q) k r := by
  rw [hd.append_left.write_success_iff]
  constructor
  · intro h k hk r
    exact (hd.acknowledged_append (hall k hk r)).mpr (h k hk r)
  · intro h k hk r
    exact (hd.acknowledged_append (hall k hk r)).mp (h k hk r)

theorem Distinct.write_notices_perm (hd : Distinct as) (hp : as.Perm bs) :
    (Ticket.create uid .write n segs).notices as = (Ticket.create uid .write n segs).notices bs := by
  apply hd.notices_perm hp
  rintro l l' ⟨q, rfl⟩ ⟨q', rfl⟩ hr hr'
  have hresult : (Ticket.waiting uid .write n segs l).outcome.result =
      (Ticket.waiting uid .write n segs l').outcome.result := by
    rw [Bool.eq_iff_iff, hd.write_success_append (resolvedBy_write_iff.mp hr),
      (hd.perm hp).write_success_append (resolvedBy_write_iff.mp hr')]
    simp only [acknowledged_perm hp]
  rw [write_outcome_eq, hresult, ← write_outcome_eq]

/-- Whatever calls are made on a ticket, its listeners are told at most once, and nothing
changes after that. For a write and distinct answers they are told at the answer that
completes the answers of all mirrors, of a success exactly if all are successes, without
data, and the same in every order of arrival. -/
theorem write_policy :
    (∀ (t : Ticket) (as : List Answer), (t.notices as).length ≤ 1 ∧
      ∀ p a rest res, as = p ++ a :: rest → t.notice p a = some res →
        t.after as = t.after (p ++ [a])) ∧
      ∀ (uid : UID) (n : ℕ) (segs : List StripeSegment) (as : List Answer), Distinct as →
        (∀ p a rest, as = p ++ a :: rest → ∀ res,
          (Ticket.create uid .write n segs).notice p a = some res ↔
            ¬ AllAnswered segs p ∧ AllAnswered segs (p ++ [a]) ∧ res.uid = uid ∧
              res.length = n ∧ res.buffer = none ∧
              (res.result = true ↔ ∀ k < segs.length, ∀ r, Acknowledged (p ++ [a]) k r)) ∧
          ∀ bs, as.Perm bs → (Ticket.create uid .write n segs).notices as =
            (Ticket.create uid .write n segs).notices bs := by
  refine ⟨?_, ?_⟩
  · intro t as
    refine ⟨t.notices_length_le as, ?_⟩
    rintro p a rest res rfl hn
    exact (Ticket.after_notice hn rest).1
  · intro uid n segs as hd
    refine ⟨?_, fun bs hp => hd.write_notices_perm hp⟩
    rintro p a rest rfl res
    exact hd.front.write_notice_iff

/-- One mirror fails: the write fails when both have answered. -/
def halfWritten : List Answer :=
  [⟨0, .backup, some (.writeReceive 42 0)⟩, ⟨0, .primary, some (.writeReceive 42 1)⟩]

theorem write_policy_halfWritten :
    (Ticket.create 42 .write 4 oneSegment).notices halfWritten = [⟨42, false, 4, none⟩] ∧
      (Ticket.create 42 .write 4 oneSegment).notices halfWritten.reverse =
        [⟨42, false, 4, none⟩] := by
  have h := (write_policy.2 42 4 oneSegment halfWritten (by decide)).2 _
    (List.reverse_perm halfWritten).symm
  have hnotices : (Ticket.create 42 .write 4 oneSegment).notices halfWritten =
      [⟨42, false, 4, none⟩] := by decide
  exact ⟨hnotices, h ▸ hnotices⟩

end IoTDrive.Master
