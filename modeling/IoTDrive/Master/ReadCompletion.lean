import IoTDrive.Master.Gather

/-! When a read completes, and with which bytes, where every answer carries the bytes of its
segment. Without failures it completes at the first answer that leaves no segment
unanswered, whichever mirror it comes from. -/

namespace IoTDrive.Master

open Lib Message Stripe SegmentState

/-- An answer to a read with as many bytes as its segment has. -/
def CarriesSegment (segs : List StripeSegment) (a : Answer) : Prop :=
  ∃ s uid result length data, segs[a.segment]? = some s ∧
    a.message = some (.readReceive uid result length (some data)) ∧
    length.toNat = s.length ∧ data.length = s.length

/-- Every segment has an answer. -/
def AllHeard (segs : List StripeSegment) (as : List Answer) : Prop :=
  ∀ k < segs.length, ∃ r, Arrived as k r

/-- No answer is a failure. -/
def AllSucceed (as : List Answer) : Prop := ∀ a ∈ as, succeeded a.message = true

/-- Answers for one segment carry the same bytes. -/
def MirrorsAgree (as : List Answer) : Prop :=
  ∀ b ∈ as, ∀ c ∈ as, b.segment = c.segment →
    b.message.bind AMessage.getData = c.message.bind AMessage.getData

/-- The answer used for a segment: a successful one, the primary's or where that one has not
come with success the backup's; and the buffer has its bytes at the place of the segment. -/
def FilledBy (as : List Answer) (buf : List (Option UInt8)) (k : ℕ) (s : StripeSegment) : Prop :=
  ∃ b ∈ as, b.segment = k ∧ succeeded b.message = true ∧
    (b.role = .primary ∨ b.role = .backup ∧
      ∀ c ∈ as, c.segment = k → c.role = .primary → succeeded c.message = false) ∧
    ∃ data, b.message.bind AMessage.getData = some data ∧
      (buf.drop s.bufferOffset).take s.length = data.map some

variable {as p q bs : List Answer} {a : Answer} {k n : ℕ} {s : StripeSegment}
  {segs : List StripeSegment} {uid : UID}

/-! ### One byte, one segment -/

theorem segment_unique
    (hcover : (segs.flatMap fun s => List.range' s.bufferOffset s.length) = List.range n)
    {j i : ℕ} {t : StripeSegment} (hs : segs[k]? = some s) (ht : segs[j]? = some t)
    (hsi : s.bufferOffset ≤ i ∧ i < s.bufferOffset + s.length)
    (hti : t.bufferOffset ≤ i ∧ i < t.bufferOffset + t.length) : k = j := by
  have hnodup : (segs.flatMap fun s => List.range' s.bufferOffset s.length).Nodup := by
    rw [hcover]
    exact List.nodup_range
  have hdisj := List.pairwise_iff_getElem.mp (List.nodup_flatMap.mp hnodup).2
  obtain ⟨hk, rfl⟩ := List.getElem?_eq_some_iff.mp hs
  obtain ⟨hj, rfl⟩ := List.getElem?_eq_some_iff.mp ht
  rcases Nat.lt_trichotomy k j with hlt | heq | hgt
  · exact absurd (List.mem_range'_1.mpr hti)
      (hdisj k j hk hj hlt (List.mem_range'_1.mpr hsi))
  · exact heq
  · exact absurd (List.mem_range'_1.mpr hsi)
      (hdisj j k hj hk hgt (List.mem_range'_1.mpr hti))

/-- The slice of the buffer at a segment is the payload of the answer that it uses. -/
theorem gathered_slice (hin : ∀ s ∈ segs, s.bufferOffset + s.length ≤ n)
    (hcover : (segs.flatMap fun s => List.range' s.bufferOffset s.length) = List.range n)
    {data : List UInt8} (hs : segs[k]? = some s)
    (hdata : (heard as k s).selectSegmentMessage.bind AMessage.getData = some data)
    (hlen : data.length = s.length) :
    ((Ticket.gathered n segs as).drop s.bufferOffset).take s.length = data.map some := by
  obtain ⟨-, hval⟩ := Ticket.gathered_cases as hin
  have hle := hin s (List.mem_of_getElem? hs)
  apply List.ext_getElem?
  intro j
  rcases Nat.lt_or_ge j s.length with hj | hj
  · rw [getElem?_take_drop hj, List.getElem?_map]
    rcases hval (s.bufferOffset + j) (by omega) with ⟨-, hnone⟩ | ⟨l, t, d, ht, hle', hlt, hd, hv⟩
    · rw [hnone k s hs (by omega) (by omega)] at hdata
      cases hdata
    · obtain rfl := segment_unique hcover hs ht ⟨by omega, by omega⟩ ⟨hle', hlt⟩
      obtain rfl := Option.some.inj (hs.symm.trans ht)
      obtain rfl := Option.some.inj (hdata.symm.trans hd)
      rw [hv, Nat.add_sub_cancel_left, List.getElem?_eq_getElem (by omega)]
      rfl
  · rw [List.getElem?_eq_none (by simp; omega), List.getElem?_eq_none (by simp; omega)]

/-! ### The buffer of a successful read -/

theorem CarriesSegment.data (h : CarriesSegment segs a) (hs : segs[a.segment]? = some s) :
    ∃ data, a.message.bind AMessage.getData = some data ∧ data.length = s.length := by
  obtain ⟨t, uid, result, length, data, ht, hm, -, hlen⟩ := h
  obtain rfl := Option.some.inj (hs.symm.trans ht)
  exact ⟨data, by rw [hm]; rfl, hlen⟩

theorem filledBy_of_success (hd : Distinct q) (hcarry : ∀ b ∈ q, CarriesSegment segs b)
    (hin : ∀ s ∈ segs, s.bufferOffset + s.length ≤ n)
    (hcover : (segs.flatMap fun s => List.range' s.bufferOffset s.length) = List.range n)
    (hr : Ticket.resolvedBy .read segs q = true)
    (hok : (Ticket.waiting uid .read n segs q).outcome.result = true) (hs : segs[k]? = some s) :
    FilledBy q (Ticket.gathered n segs q) k s := by
  obtain ⟨hk, -⟩ := List.getElem?_eq_some_iff.mp hs
  have hch := (Ticket.outcome_success_iff uid n hr).mp hok k hk
  obtain ⟨b, hb, rfl, hbm, hrole⟩ := exists_chosen hch
  obtain ⟨data, hdata, hlen⟩ := (hcarry b hb).data hs
  refine ⟨b, hb, rfl, hbm ▸ hch, ?_, data, hdata, gathered_slice hin hcover hs ?_ hlen⟩
  · rcases hrole with hrole | ⟨hrole, hfail⟩
    · exact .inl hrole
    · refine .inr ⟨hrole, fun c hc hcs hcr => ?_⟩
      rw [← hcs, ← hcr, hd.latest_eq hc] at hfail
      exact hfail
  · rw [select_resolvedBy hr hs, hbm]
    exact hdata

/-! ### Without failures -/

theorem AllSucceed.latest (h : AllSucceed q) {r : MirrorRole} (ha : Arrived q k r) :
    succeeded (latest q k r) = true := by
  obtain ⟨b, hb, -, -, hl⟩ := exists_latest ha
  rw [hl]
  exact h b hb

theorem AllSucceed.chosen (h : AllSucceed q) {r : MirrorRole} (ha : Arrived q k r) :
    succeeded (chosen q k) = true := by
  unfold Master.chosen
  split_ifs with hp
  · exact hp
  · cases r with
    | primary => exact absurd (h.latest ha) hp
    | backup => exact h.latest ha

theorem AllSucceed.resolvedBy_iff (h : AllSucceed q) :
    Ticket.resolvedBy .read segs q = true ↔ AllHeard segs q := by
  rw [Ticket.resolvedBy_iff]
  constructor
  · intro hr k hk
    rcases resolved_read_iff.mp (hr k _ (List.getElem?_eq_getElem hk)) with hp | hb
    · exact ⟨.primary, succeeded_arrived hp⟩
    · exact ⟨.backup, hb⟩
  · intro hall k s hs
    obtain ⟨hk, -⟩ := List.getElem?_eq_some_iff.mp hs
    obtain ⟨r, hr⟩ := hall k hk
    rw [resolved_read_iff]
    cases r with
    | primary => exact .inl (h.latest hr)
    | backup => exact .inr hr

theorem AllSucceed.outcome (h : AllSucceed q) (hall : AllHeard segs q) :
    (Ticket.waiting uid .read n segs q).outcome.result = true := by
  rw [Ticket.outcome_success_iff uid n (h.resolvedBy_iff.mpr hall)]
  intro k hk
  obtain ⟨r, hr⟩ := hall k hk
  exact h.chosen hr

/-- A read without failures tells its listeners of a success at the first answer that leaves
no segment unanswered, and of nothing else. -/
theorem AllSucceed.notice_iff (hd : Distinct (p ++ [a])) (h : AllSucceed (p ++ [a])) :
    ((∃ res, (Ticket.create uid .read n segs).notice p a = some res) ↔
      AllHeard segs (p ++ [a]) ∧ ¬ AllHeard segs p) ∧
      ∀ res, (Ticket.create uid .read n segs).notice p a = some res → res.result = true := by
  have hp : AllSucceed p := fun b hb => h b (List.mem_append_left _ hb)
  have hdec : Ticket.Decides .read segs p a ↔ AllHeard segs (p ++ [a]) ∧ ¬ AllHeard segs p := by
    rw [hd.decides_iff, h.resolvedBy_iff, ← hp.resolvedBy_iff, Bool.not_eq_true, and_comm]
  constructor
  · rw [← hdec]
    constructor
    · rintro ⟨res, hres⟩
      exact (Ticket.notice_eq_some_iff.mp hres).1
    · intro hdec
      exact ⟨_, Ticket.notice_decides uid n hdec⟩
  · intro res hres
    obtain ⟨hdec', rfl⟩ := Ticket.notice_eq_some_iff.mp hres
    exact h.outcome (hdec.mp hdec').1

/-- Successful answers complete a read exactly if they leave no segment unanswered. -/
theorem AllSucceed.notices_success_iff (h : AllSucceed as) :
    (∃ res ∈ (Ticket.create uid .read n segs).notices as, res.result = true) ↔
      segs ≠ [] ∧ AllHeard segs as := by
  rcases Ticket.notices_cases uid .read n segs as with ⟨hnil, hno⟩ | ⟨p, a, rest, rfl, hdec, hn⟩
  · rw [hnil]
    constructor
    · rintro ⟨res, hres, -⟩
      cases hres
    · rintro ⟨hne, hall⟩
      refine absurd (Ticket.exists_decides hne fun hu => ?_) hno
      exact Bool.false_ne_true ((hu as (List.prefix_refl as)).symm.trans (h.resolvedBy_iff.mpr hall))
  · have hp : AllSucceed (p ++ [a]) := forall_front h
    have hheard : AllHeard segs (p ++ [a]) := hp.resolvedBy_iff.mp hdec.2
    rw [hn]
    constructor
    · rintro -
      refine ⟨hdec.segs_ne_nil, ?_⟩
      intro k hk
      obtain ⟨r, hr⟩ := hheard k hk
      rw [List.append_cons]
      exact ⟨r, arrived_append.mpr (.inl hr)⟩
    · rintro -
      exact ⟨_, List.mem_singleton_self _, hp.outcome hheard⟩

/-! ### Arrival order -/

/-- The answer a segment uses is one of those heard. -/
theorem AllSucceed.exists_chosen (hok : AllSucceed as) (hq : q ⊆ as) (hall : AllHeard segs q)
    (hk : k < segs.length) : ∃ b ∈ as, b.segment = k ∧ Master.chosen q k = b.message := by
  obtain ⟨r, hr⟩ := hall k hk
  have hq' : AllSucceed q := fun b hb => hok b (hq hb)
  obtain ⟨b, hb, hbk, hbm, -⟩ := Master.exists_chosen (hq'.chosen hr)
  exact ⟨b, hq hb, hbk, hbm⟩

/-- The bytes of a segment are the same whichever answers were heard. -/
theorem MirrorsAgree.payload_eq (hagree : MirrorsAgree as) (hok : AllSucceed as) (hp : p ⊆ as)
    (hq : q ⊆ as) (hap : AllHeard segs p) (haq : AllHeard segs q) (hs : segs[k]? = some s) :
    (heard p k s).payload = (heard q k s).payload := by
  have hpok : AllSucceed p := fun b hb => hok b (hp hb)
  have hqok : AllSucceed q := fun b hb => hok b (hq hb)
  obtain ⟨hk, -⟩ := List.getElem?_eq_some_iff.mp hs
  obtain ⟨b, hb, hbk, hbm⟩ := hok.exists_chosen hp hap hk
  obtain ⟨c, hc, hck, hcm⟩ := hok.exists_chosen hq haq hk
  unfold payload
  rw [select_resolvedBy (hpok.resolvedBy_iff.mpr hap) hs,
    select_resolvedBy (hqok.resolvedBy_iff.mpr haq) hs, hbm, hcm,
    hagree b hb c hc (hbk.trans hck.symm)]
  rfl

/-- The gathered buffer is a function of the places and payloads of the segments. -/
theorem gathered_eq_of_payload
    (h : ∀ (k : ℕ) (s : StripeSegment), segs[k]? = some s →
      (heard p k s).payload = (heard q k s).payload) :
    Ticket.gathered n segs p = Ticket.gathered n segs q := by
  have hfold : ∀ l, Ticket.gathered n segs l =
      ((segs.mapIdx fun k s => heard l k s).map fun g => (g.bufferOffset, g.payload)).foldl
        (fun buf x => x.2.elim buf (writeAt none buf x.1)) (List.replicate n none) := by
    intro l
    rw [List.foldl_map]
    unfold Ticket.gathered
    congr 1
    funext buf g
    exact copyTo_payload g buf
  rw [hfold, hfold]
  congr 1
  apply List.ext_getElem?
  intro k
  simp only [List.getElem?_map, List.getElem?_mapIdx]
  cases hs : segs[k]? with
  | none => rfl
  | some s => simp only [Option.map_some, h k s hs]; rfl

theorem MirrorsAgree.outcome_eq (hagree : MirrorsAgree as) (hok : AllSucceed as) (hp : p ⊆ as)
    (hq : q ⊆ as) (hap : AllHeard segs p) (haq : AllHeard segs q) :
    (Ticket.waiting uid .read n segs p).outcome = (Ticket.waiting uid .read n segs q).outcome := by
  have hpok : AllSucceed p := fun b hb => hok b (hp hb)
  have hqok : AllSucceed q := fun b hb => hok b (hq hb)
  have hbuf : Ticket.gathered n segs p = Ticket.gathered n segs q :=
    gathered_eq_of_payload fun k s hs => hagree.payload_eq hok hp hq hap haq hs
  rw [Ticket.outcome_success (hpok.outcome hap), Ticket.outcome_success (hqok.outcome haq), hbuf]

theorem MirrorsAgree.notices_perm (hd : Distinct as) (hok : AllSucceed as)
    (hagree : MirrorsAgree as) (hp : as.Perm bs) :
    (Ticket.create uid .read n segs).notices as = (Ticket.create uid .read n segs).notices bs := by
  apply hd.notices_perm hp
  intro l l' hl hl' hr hr'
  have hsub : l ⊆ as := hl.subset
  have hsub' : l' ⊆ as := fun b hb => hp.mem_iff.mpr (hl'.subset hb)
  have hlok : AllSucceed l := fun b hb => hok b (hsub hb)
  have hlok' : AllSucceed l' := fun b hb => hok b (hsub' hb)
  exact hagree.outcome_eq hok hsub hsub' (hlok.resolvedBy_iff.mp hr) (hlok'.resolvedBy_iff.mp hr')

/-! ### Reads of the drive -/

/-- A read of the drive whose answers carry the bytes of their segments. A success is told only
when every segment has a successful answer, and its buffer has at every segment the bytes of
the answer that is preferred, with every byte in exactly one segment. Without failures the
success is told at the first answer that leaves no segment unanswered; and where the mirrors
agree it is the same in every order of arrival. -/
theorem read_completion (uid : UID) (offset length chunkSize numMinions : ℕ) (hc : 0 < chunkSize)
    (hl : length < sizeMod) (as : List Answer) (hd : Distinct as)
    (hcarry : ∀ a ∈ as, CarriesSegment (split offset length chunkSize numMinions hc) a) :
    let segs := split offset length chunkSize numMinions hc
    let t := Ticket.create uid .read length segs
    (∀ p a rest, as = p ++ a :: rest → ∀ res, t.notice p a = some res → res.result = true →
      ∃ buf, res.buffer = some buf ∧ buf.length = length ∧
        ∀ (k : ℕ) (s : StripeSegment), segs[k]? = some s → FilledBy (p ++ [a]) buf k s) ∧
      (segs.flatMap fun s => List.range' s.bufferOffset s.length) = List.range length ∧
      (AllSucceed as → ∀ p a rest, as = p ++ a :: rest →
        ((∃ res, t.notice p a = some res) ↔ AllHeard segs (p ++ [a]) ∧ ¬ AllHeard segs p) ∧
          ∀ res, t.notice p a = some res → res.result = true) ∧
      (AllSucceed as → MirrorsAgree as → ∀ bs, as.Perm bs → t.notices as = t.notices bs) := by
  intro segs t
  have hin : ∀ s ∈ segs, s.bufferOffset + s.length ≤ length := fun s hs => (split_within hl hs).2
  have hcover : (segs.flatMap fun s => List.range' s.bufferOffset s.length) = List.range length :=
    split_ranges_wrapping hl
  refine ⟨?_, hcover, ?_, fun hok hagree bs hp => hagree.notices_perm hd hok hp⟩
  · rintro p a rest rfl res hn hres
    obtain ⟨hdec, rfl⟩ := Ticket.notice_eq_some_iff.mp hn
    refine ⟨Ticket.gathered length segs (p ++ [a]), ?_, (Ticket.gathered_cases _ hin).1, ?_⟩
    · rw [Ticket.outcome_success hres]
    · intro k s hs
      exact filledBy_of_success hd.front (forall_front hcarry) hin hcover hdec.2 hres hs
  · rintro hok p a rest rfl
    exact AllSucceed.notice_iff hd.front (forall_front hok)

/-- Four bytes across a chunk boundary. -/
theorem split_crossing :
    split 2 4 4 3 (Nat.succ_pos 3) = [⟨2, 2, 0, 0, 1⟩, ⟨0, 2, 2, 1, 2⟩] := by
  have first : splitLoop 4 3 (Nat.succ_pos 3) 4 (2 + 0) 0 =
      ⟨2, 2, 0, 0, 1⟩ :: splitLoop 4 3 (Nat.succ_pos 3) 2 (2 + 2) 2 :=
    splitLoop_succ 3 (Nat.succ_pos 3) (by decide) (by decide)
  have second : splitLoop 4 3 (Nat.succ_pos 3) 2 (2 + 2) 2 =
      ⟨0, 2, 2, 1, 2⟩ :: splitLoop 4 3 (Nat.succ_pos 3) 0 (2 + 4) 4 :=
    splitLoop_succ 3 (Nat.succ_pos 3) (by decide) (by decide)
  rw [second, splitLoop_zero] at first
  exact first

/-- The first half from its primary, the second from its backup; the others are silent. -/
def crossingAnswers : List Answer :=
  [⟨0, .primary, some (.readReceive 42 1 2 (some [1, 2]))⟩,
    ⟨1, .backup, some (.readReceive 42 1 2 (some [3, 4]))⟩]

theorem read_completion_crossing :
    ∃ p a, crossingAnswers = p ++ [a] ∧
      ∃ res, (Ticket.create 42 .read 4 (split 2 4 4 3 (Nat.succ_pos 3))).notice p a = some res ∧
        res.result = true := by
  have hcarry : ∀ a ∈ crossingAnswers, CarriesSegment (split 2 4 4 3 (Nat.succ_pos 3)) a := by
    rw [split_crossing]
    intro a ha
    rcases List.mem_pair.mp ha with rfl | rfl
    · exact ⟨⟨2, 2, 0, 0, 1⟩, 42, 1, 2, [1, 2], rfl, rfl, rfl, rfl⟩
    · exact ⟨⟨0, 2, 2, 1, 2⟩, 42, 1, 2, [3, 4], rfl, rfl, rfl, rfl⟩
  have h := read_completion 42 2 4 4 3 (Nat.succ_pos 3) (by decide) crossingAnswers (by decide) hcarry
  have hok : AllSucceed crossingAnswers := by
    intro a ha
    rcases List.mem_pair.mp ha with rfl | rfl
    · rfl
    · rfl
  obtain ⟨hiff, hsuccess⟩ := h.2.2.1 hok [_] _ [] rfl
  have hheard : AllHeard (split 2 4 4 3 (Nat.succ_pos 3)) crossingAnswers := by
    rw [split_crossing]
    intro k hk
    rcases Nat.lt_succ_iff_lt_or_eq.mp hk with hk | rfl
    · obtain rfl : k = 0 := by simpa using hk
      exact ⟨.primary, by decide⟩
    · exact ⟨.backup, by decide⟩
  have hfirst : ¬ AllHeard (split 2 4 4 3 (Nat.succ_pos 3)) (crossingAnswers.take 1) := by
    rw [split_crossing]
    intro h
    obtain ⟨r, hr⟩ := h 1 (by decide)
    cases r with
    | primary => exact absurd hr (by decide)
    | backup => exact absurd hr (by decide)
  obtain ⟨res, hres⟩ := hiff.mpr ⟨hheard, hfirst⟩
  exact ⟨_, _, rfl, res, hres, hsuccess res hres⟩

end IoTDrive.Master
