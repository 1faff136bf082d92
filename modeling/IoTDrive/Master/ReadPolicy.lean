import IoTDrive.Master.Answers

/-! When a read fails. A segment of a read is resolved by a successful answer of its primary
or by any answer of its backup. So a failed primary waits for the backup, but a failed
backup does not wait for the primary: if it comes first and the other segments are resolved
before the primary answers, the read fails although the primary may have the data. -/

namespace IoTDrive.Master

open Message Stripe SegmentState

/-- The mirror has answered for the segment, with a failure or without a message. -/
def Failed (as : List Answer) (k : ℕ) (r : MirrorRole) : Prop :=
  ∃ a ∈ as, a.segment = k ∧ a.role = r ∧ succeeded a.message = false

instance (as : List Answer) (k : ℕ) (r : MirrorRole) : Decidable (Failed as k r) :=
  inferInstanceAs (Decidable (∃ a ∈ as, _))

/-- Some segment has lost both mirrors. -/
def LostSegment (segs : List StripeSegment) (as : List Answer) : Prop :=
  ∃ k < segs.length, Failed as k .primary ∧ Failed as k .backup

/-- Some segment has a failed backup and nothing of its primary. -/
def LoneBackupFailure (segs : List StripeSegment) (as : List Answer) : Prop :=
  ∃ k < segs.length, Failed as k .backup ∧ ¬ Arrived as k .primary

/-- Whenever the read ticket tells its listeners of a failure, some segment has lost both
mirrors. -/
def FailsOnlyLost (uid : UID) (n : ℕ) (segs : List StripeSegment) (as : List Answer) : Prop :=
  ∀ p a rest, as = p ++ a :: rest → ∀ res, (Ticket.create uid .read n segs).notice p a = some res →
    res.result = false → LostSegment segs (p ++ [a])

/-- At the deciding answer no segment has a failed backup and nothing of its primary, or else
another has lost both. -/
def PrimariesHeard (segs : List StripeSegment) (as : List Answer) : Prop :=
  ∀ p a rest, as = p ++ a :: rest → Ticket.Decides .read segs p a →
    LoneBackupFailure segs (p ++ [a]) → LostSegment segs (p ++ [a])

variable {as p : List Answer} {a : Answer} {k : ℕ} {r : MirrorRole} {s : StripeSegment}

theorem Distinct.failed_iff (h : Distinct as) :
    Failed as k r ↔ Arrived as k r ∧ succeeded (latest as k r) = false := by
  constructor
  · rintro ⟨a, ha, rfl, rfl, hf⟩
    exact ⟨⟨a, ha, rfl, rfl⟩, by rw [h.latest_eq ha]; exact hf⟩
  · rintro ⟨⟨a, ha, rfl, rfl⟩, hf⟩
    rw [h.latest_eq ha] at hf
    exact ⟨a, ha, rfl, rfl, hf⟩

theorem select_heard :
    (heard as k s).selectSegmentMessage =
      if succeeded (latest as k .primary) = true then latest as k .primary
      else if Arrived as k .backup then latest as k .backup
      else latest as k .primary := by
  cases hp : succeeded (latest as k .primary) with
  | true => simp [selectSegmentMessage, heard, hp, succeeded_arrived hp]
  | false => simp [selectSegmentMessage, heard, hp]

/-- A resolved segment fails by its backup, without the primary's help. -/
theorem unsuccessful_read_iff (hr : isSegmentResolved .read (heard as k s) = true) :
    isSegmentSuccessful .read (heard as k s) = false ↔
      succeeded (latest as k .primary) = false ∧ Arrived as k .backup ∧
        succeeded (latest as k .backup) = false := by
  rw [resolved_read_iff] at hr
  unfold isSegmentSuccessful
  simp only [select_heard]
  cases hp : succeeded (latest as k .primary) with
  | true => simp [hp]
  | false =>
    have hb : Arrived as k .backup := by simpa [hp] using hr
    simp [hb]

/-- The outcome is a failure if a segment is unsuccessful. -/
theorem outcome_failed_iff {uid : UID} {op : TicketOp} {n : ℕ} {segs : List StripeSegment} :
    (Ticket.waiting uid op n segs as).outcome.result = false ↔
      ∃ (k : ℕ) (s : StripeSegment), segs[k]? = some s ∧
        isSegmentSuccessful op (heard as k s) = false := by
  show (segs.mapIdx fun k s => heard as k s).all (isSegmentSuccessful op) = false ↔ _
  rw [← Bool.not_eq_true, Ticket.all_waiting_iff]
  push Not
  simp only [Bool.not_eq_true]

/-- A read reports a failure only with a lost segment exactly if the failed backups have waited
for their primaries. -/
theorem failsOnlyLost_iff (uid : UID) (n : ℕ) (segs : List StripeSegment) (as : List Answer)
    (h : Distinct as) : FailsOnlyLost uid n segs as ↔ PrimariesHeard segs as := by
  constructor
  · rintro hfail p a rest rfl hdec ⟨k, hk, hb, hp⟩
    have hd : Distinct (p ++ [a]) := h.front
    refine hfail p a rest rfl _ (Ticket.notice_decides uid n hdec) ?_
    rw [outcome_failed_iff]
    have hs : segs[k]? = some segs[k] := List.getElem?_eq_getElem hk
    refine ⟨k, segs[k], hs, ?_⟩
    rw [unsuccessful_read_iff ((Ticket.resolvedBy_iff _).mp hdec.2 k _ hs), latest_eq_none hp]
    exact ⟨rfl, hd.failed_iff.mp hb⟩
  · rintro hheard p a rest rfl res hn hres
    have hd : Distinct (p ++ [a]) := h.front
    obtain ⟨hdec, rfl⟩ := Ticket.notice_eq_some_iff.mp hn
    obtain ⟨k, s, hs, hf⟩ := outcome_failed_iff.mp hres
    rw [unsuccessful_read_iff ((Ticket.resolvedBy_iff _).mp hdec.2 k s hs)] at hf
    obtain ⟨hk, -⟩ := List.getElem?_eq_some_iff.mp hs
    have hb : Failed (p ++ [a]) k .backup := hd.failed_iff.mpr hf.2
    by_cases hp : Arrived (p ++ [a]) k .primary
    · exact ⟨k, hk, hd.failed_iff.mpr ⟨hp, hf.1⟩, hb⟩
    · exact hheard p a rest rfl hdec ⟨k, hk, hb, hp⟩

/-- One segment of four bytes. -/
def oneSegment : List StripeSegment := [⟨0, 4, 0, 0, 1⟩]

/-- An answer to a read of four bytes; a failed read carries none. -/
def readAnswer (role : MirrorRole) (data : Option (List UInt8)) : Answer :=
  ⟨0, role, some (.readReceive 42 (if data.isSome then 1 else 0) 4 data)⟩

/-- The failure of the primary waits for the backup, and both are lost. -/
theorem failsOnlyLost_primaryFirst :
    FailsOnlyLost 42 4 oneSegment [readAnswer .primary none, readAnswer .backup none] := by
  rw [failsOnlyLost_iff _ _ _ _ (by decide)]
  rintro p a rest hsplit - ⟨k, hk, ⟨b, hb, -, hrole, -⟩, hp⟩
  have hprimary : p = [] → b = readAnswer .primary none := by
    rintro rfl
    simp_all
  rcases p with _ | ⟨c, p⟩
  · rw [hprimary rfl] at hrole
    cases hrole
  · obtain ⟨rfl, -⟩ := List.cons.inj hsplit
    have hk0 : k = 0 := by
      simp only [oneSegment, List.length_singleton] at hk
      omega
    exact absurd ⟨_, List.mem_cons_self, hk0.symm, rfl⟩ hp

/-- The backup fails and the read with it, before the primary answers with the data. -/
theorem backup_failure_first :
    ¬ FailsOnlyLost 42 4 oneSegment
      [readAnswer .backup none, readAnswer .primary (some [1, 2, 3, 4])] := by
  intro h
  have hlost := h [] (readAnswer .backup none) _ rfl _ rfl rfl
  obtain ⟨k, -, ⟨b, hb, -, hrole, -⟩, -⟩ := hlost
  rw [List.nil_append, List.mem_singleton] at hb
  rw [hb] at hrole
  cases hrole

end IoTDrive.Master
