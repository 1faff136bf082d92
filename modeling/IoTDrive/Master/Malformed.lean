import IoTDrive.Master.Gather
import IoTDrive.Message.Datagram

/-! Answers that do not fit their segment. The ticket looks at the success flag alone: it
copies the length of the segment from whatever payload the chosen answer has, and nothing
where it has none. An acknowledgement of a write leaves the bytes of its segment
indeterminate, and a payload that is too short is read past its end. -/

namespace IoTDrive.Master

open Lib Message Stripe SegmentState

/-- A message that the factory of the master makes and its `FromBuffer` fills. -/
def FactoryBuilt (message : Option AMessage) : Prop :=
  ∃ type ∈ masterTypes, ∃ buf m rest, fromBuffer type buf = some (m, rest) ∧ message = some m

/-- The chosen answer is an answer to a read. -/
def ChoosesRead (as : List Answer) (k : ℕ) : Prop :=
  ∃ uid result length data, chosen as k = some (.readReceive uid result length data)

/-- The copies of a successful read: every byte of the buffer is a byte of the payload of a
successful answer for a segment over it, and no copy reads more bytes than the answer says it
has. -/
structure CopiedSoundly (n : ℕ) (segs : List StripeSegment) (as : List Answer)
    (buf : List (Option UInt8)) : Prop where
  copied : ∀ i < n, ∃ b ∈ as, ∃ s data x, segs[b.segment]? = some s ∧ s.bufferOffset ≤ i ∧
    i < s.bufferOffset + s.length ∧ succeeded b.message = true ∧
    b.message.bind AMessage.getData = some data ∧ data[i - s.bufferOffset]? = some x ∧
    buf[i]? = some (some x)
  bounded : ∀ (k : ℕ) (s : StripeSegment), segs[k]? = some s → ∀ m,
    (heard as k s).selectSegmentMessage = some m → m.getData.isSome →
    s.length ≤ m.getLength.toNat

/-- Whenever the read ticket tells its listeners of a success, the buffer was copied soundly. -/
def SuccessIsSound (uid : UID) (n : ℕ) (segs : List StripeSegment) (as : List Answer) : Prop :=
  ∀ p a rest, as = p ++ a :: rest → ∀ res, (Ticket.create uid .read n segs).notice p a = some res →
    res.result = true → ∃ buf, res.buffer = some buf ∧ CopiedSoundly n segs (p ++ [a]) buf

/-- A chosen answer to a read has at least the length of its segment. -/
def LongEnough (segs : List StripeSegment) (as : List Answer) : Prop :=
  ∀ (k : ℕ) (s : StripeSegment), segs[k]? = some s → ∀ uid result length data,
    chosen as k = some (.readReceive uid result length data) → s.length ≤ length.toNat

/-- Every byte lies in a segment whose chosen answer is an answer to a read. -/
def ReadEverywhere (n : ℕ) (segs : List StripeSegment) (as : List Answer) : Prop :=
  ∀ i < n, ∃ (k : ℕ) (s : StripeSegment), segs[k]? = some s ∧ s.bufferOffset ≤ i ∧
    i < s.bufferOffset + s.length ∧ ChoosesRead as k

/-- Where the answers decide a success, the chosen answers fit. -/
def FitsSegments (n : ℕ) (segs : List StripeSegment) (as : List Answer) : Prop :=
  ∀ p a rest, as = p ++ a :: rest → Ticket.Decides .read segs p a →
    (∀ k < segs.length, succeeded (chosen (p ++ [a]) k) = true) →
    LongEnough segs (p ++ [a]) ∧ ReadEverywhere n segs (p ++ [a])

variable {as p q : List Answer} {a : Answer} {k n : ℕ} {s : StripeSegment}
  {segs : List StripeSegment} {uid : UID}

/-- A decoded answer to a read has the payload that its length says; the other class has
none. -/
theorem FactoryBuilt.cases {message : Option AMessage} (h : FactoryBuilt message) :
    (∃ uid result length data, message = some (.readReceive uid result length (some data)) ∧
        data.length = length.toNat) ∨
      ∃ uid result, message = some (.writeReceive uid result) := by
  obtain ⟨type, htype, buf, m, rest, hbuf, rfl⟩ := h
  rcases List.mem_pair.mp htype with rfl | rfl
  · left
    simp only [fromBuffer, Option.bind_eq_bind, Option.bind_eq_some_iff, Option.pure_def,
      Option.some.injEq, Prod.mk.injEq] at hbuf
    obtain ⟨uid, -, result, -, length, -, data, hdata, rfl, -⟩ := hbuf
    unfold takeBytes at hdata
    split_ifs at hdata with hle
    refine ⟨uid.1, result.1, length.1, data.1, rfl, ?_⟩
    rw [← Option.some.inj hdata]
    simpa using hle
  · right
    simp only [fromBuffer, Option.bind_eq_bind, Option.bind_eq_some_iff, Option.pure_def,
      Option.some.injEq, Prod.mk.injEq] at hbuf
    obtain ⟨uid, -, result, -, rfl, -⟩ := hbuf
    exact ⟨uid.1, result.1, rfl⟩

/-- What a minion encodes with its whole payload, the factory builds. -/
theorem factoryBuilt_of_payloadFits {m : AMessage} (hp : m.PayloadFits) (hs : m.wireSize < 2 ^ 64)
    (htype : m.getMessageType ∈ masterTypes) : FactoryBuilt (some m) := by
  obtain ⟨b, -, hb⟩ := AMessage.fromBuffer_body (fun _ => 0) hp hs
  refine ⟨m.getMessageType, htype, b ++ [], m, [], ?_, rfl⟩
  rw [hb]
  cases m with
  | readSend => rfl
  | writeSend => cases htype with | tail _ h => cases h with | tail _ h => cases h
  | readReceive => rfl
  | writeReceive => rfl

/-- The chosen answer of a success, by its class. -/
theorem chosen_cases (hbuilt : ∀ a ∈ q, FactoryBuilt a.message)
    (hok : succeeded (chosen q k) = true) :
    (∃ uid result length data, chosen q k = some (.readReceive uid result length (some data)) ∧
        data.length = length.toNat) ∨
      ∃ uid result, chosen q k = some (.writeReceive uid result) := by
  obtain ⟨b, hb, -, hbm, -⟩ := exists_chosen hok
  rw [hbm]
  exact (hbuilt b hb).cases

/-- A chosen answer with a payload is an answer to a read, with that payload. -/
theorem choosesRead_of_data (hbuilt : ∀ a ∈ q, FactoryBuilt a.message)
    (hok : succeeded (chosen q k) = true) {data : List UInt8}
    (hdata : (chosen q k).bind AMessage.getData = some data) :
    ∃ uid result length, chosen q k = some (.readReceive uid result length (some data)) ∧
      data.length = length.toNat := by
  rcases chosen_cases hbuilt hok with ⟨uid, result, length, d, hch, hlen⟩ | ⟨uid, result, hch⟩
  · rw [hch] at hdata
    obtain rfl : d = data := Option.some.inj hdata
    exact ⟨uid, result, length, hch, hlen⟩
  · rw [hch] at hdata
    cases hdata

section Decided

variable (hbuilt : ∀ a ∈ q, FactoryBuilt a.message)
  (hin : ∀ s ∈ segs, s.bufferOffset + s.length ≤ n)
  (hr : Ticket.resolvedBy .read segs q = true)
  (hok : ∀ k < segs.length, succeeded (chosen q k) = true)

include hbuilt hin hr hok

theorem fits_of_copiedSoundly (h : CopiedSoundly n segs q (Ticket.gathered n segs q)) :
    LongEnough segs q ∧ ReadEverywhere n segs q := by
  constructor
  · intro k s hs uid result length data hch
    obtain ⟨hk, -⟩ := List.getElem?_eq_some_iff.mp hs
    have hsome : data.isSome := by
      rcases chosen_cases hbuilt (hok k hk) with ⟨u, r, l, d, hch', -⟩ | ⟨u, r, hch'⟩
      · rw [hch] at hch'
        cases hch'
        rfl
      · rw [hch] at hch'
        cases hch'
    exact h.bounded k s hs _ ((select_resolvedBy hr hs).trans hch) hsome
  · intro i hi
    obtain ⟨b, -, s, data, x, -, -, -, -, -, -, hx⟩ := h.copied i hi
    rcases (Ticket.gathered_cases q hin).2 i hi with ⟨hnone, -⟩ | ⟨k, t, d, ht, hle, hlt, hd, -⟩
    · rw [hx] at hnone
      cases hnone
    · obtain ⟨hk, -⟩ := List.getElem?_eq_some_iff.mp ht
      rw [select_resolvedBy hr ht] at hd
      obtain ⟨u, r, l, hch, -⟩ := choosesRead_of_data hbuilt (hok k hk) hd
      exact ⟨k, t, ht, hle, hlt, u, r, l, _, hch⟩

theorem copiedSoundly_of_fits (hlong : LongEnough segs q) (hread : ReadEverywhere n segs q) :
    CopiedSoundly n segs q (Ticket.gathered n segs q) := by
  constructor
  · intro i hi
    rcases (Ticket.gathered_cases q hin).2 i hi with ⟨-, hnone⟩ | ⟨k, s, d, hs, hle, hlt, hd, hv⟩
    · -- a segment over the byte has a payload to copy
      obtain ⟨k, s, hs, hle, hlt, u, r, l, data, hch⟩ := hread i hi
      obtain ⟨hk, -⟩ := List.getElem?_eq_some_iff.mp hs
      have hno := hnone k s hs hle hlt
      rw [select_resolvedBy hr hs] at hno
      rcases chosen_cases hbuilt (hok k hk) with ⟨u', r', l', d', hch', -⟩ | ⟨u', r', hch'⟩
      · rw [hch'] at hno
        cases hno
      · rw [hch] at hch'
        cases hch'
    · obtain ⟨hk, -⟩ := List.getElem?_eq_some_iff.mp hs
      rw [select_resolvedBy hr hs] at hd
      obtain ⟨u, r, l, hch, hlen⟩ := choosesRead_of_data hbuilt (hok k hk) hd
      have hle' := hlong k s hs u r l _ hch
      obtain ⟨b, hb, rfl, hbm, -⟩ := exists_chosen (hok k hk)
      obtain ⟨x, hx⟩ : ∃ x, d[i - s.bufferOffset]? = some x :=
        ⟨_, List.getElem?_eq_getElem (by omega)⟩
      refine ⟨b, hb, s, d, x, hs, hle, hlt, hbm ▸ hok _ hk, hbm ▸ hd, hx, ?_⟩
      rw [hv, hx]
  · intro k s hs m hm hdata
    obtain ⟨hk, -⟩ := List.getElem?_eq_some_iff.mp hs
    rw [select_resolvedBy hr hs] at hm
    rcases chosen_cases hbuilt (hok k hk) with ⟨u, r, l, d, hch, -⟩ | ⟨u, r, hch⟩
    · obtain rfl := Option.some.inj (hm.symm.trans hch)
      exact hlong k s hs u r l _ hch
    · obtain rfl := Option.some.inj (hm.symm.trans hch)
      cases hdata

end Decided

/-- A success is sound exactly if the answers chosen for it fit their segments. The segments
lie in the buffer, as those of the splitter do. -/
theorem successIsSound_iff (uid : UID) (n : ℕ) (segs : List StripeSegment) (as : List Answer)
    (hin : ∀ s ∈ segs, s.bufferOffset + s.length ≤ n)
    (hbuilt : ∀ a ∈ as, FactoryBuilt a.message) :
    SuccessIsSound uid n segs as ↔ FitsSegments n segs as := by
  have hheard : ∀ p a rest, as = p ++ a :: rest → ∀ b ∈ p ++ [a], FactoryBuilt b.message := by
    rintro p a rest rfl
    exact forall_front hbuilt
  constructor
  · intro h p a rest heq hdec hok
    have hres := (Ticket.outcome_success_iff uid n hdec.2).mpr hok
    obtain ⟨buf, hbuf, hcopied⟩ := h p a rest heq _ (Ticket.notice_decides uid n hdec) hres
    rw [Ticket.outcome_success hres] at hbuf
    obtain rfl := Option.some.inj hbuf
    exact fits_of_copiedSoundly (hheard p a rest heq) hin hdec.2 hok hcopied
  · intro h p a rest heq res hn hres
    obtain ⟨hdec, rfl⟩ := Ticket.notice_eq_some_iff.mp hn
    have hok := (Ticket.outcome_success_iff uid n hdec.2).mp hres
    obtain ⟨hlong, hread⟩ := h p a rest heq hdec hok
    refine ⟨Ticket.gathered n segs (p ++ [a]), ?_,
      copiedSoundly_of_fits (hheard p a rest heq) hin hdec.2 hok hlong hread⟩
    rw [Ticket.outcome_success hres]

theorem successIsSound_primary :
    SuccessIsSound 42 4 oneSegment [readAnswer .primary (some [1, 2, 3, 4])] := by
  have hbuilt : ∀ a ∈ [readAnswer .primary (some [1, 2, 3, 4])], FactoryBuilt a.message := by
    intro a ha
    rw [List.mem_singleton.mp ha]
    exact factoryBuilt_of_payloadFits ⟨_, rfl, rfl⟩ (by decide) (by decide)
  rw [successIsSound_iff _ _ _ _ (by decide) hbuilt]
  intro p a rest heq _ _
  obtain ⟨rfl, rfl, -⟩ : p = [] ∧ a = readAnswer .primary (some [1, 2, 3, 4]) ∧ rest = [] := by
    rcases p with _ | ⟨b, p⟩
    · simpa using heq.symm
    · simp at heq
  have hchosen : chosen [readAnswer .primary (some [1, 2, 3, 4])] 0 =
      some (.readReceive 42 1 4 (some [1, 2, 3, 4])) := by decide
  constructor
  · intro k s hs uid result length data hch
    cases k with
    | zero =>
      obtain rfl := Option.some.inj hs
      rw [List.nil_append, hchosen] at hch
      cases hch
      decide
    | succ k => cases hs
  · intro i hi
    exact ⟨0, _, rfl, Nat.zero_le i, by simpa using hi, 42, 1, 4, _, hchosen⟩

/-- The acknowledgement of a write, taken as the answer to a read: a success without one
determinate byte. -/
theorem write_acknowledgement_read :
    FactoryBuilt (some (.writeReceive 42 1)) ∧
      ¬ SuccessIsSound 42 4 oneSegment [⟨0, .primary, some (.writeReceive 42 1)⟩] := by
  refine ⟨factoryBuilt_of_payloadFits trivial (by decide) (by decide), ?_⟩
  intro h
  obtain ⟨buf, -, hcopied⟩ := h [] _ [] rfl _ rfl rfl
  obtain ⟨b, hb, s, data, x, -, -, -, -, hdata, -⟩ := hcopied.copied 0 (by decide)
  rw [List.nil_append, List.mem_singleton] at hb
  rw [hb] at hdata
  cases hdata

end IoTDrive.Master
