import IoTDrive.Master.ReadPolicy

/-! The buffer of a successful read. Each segment copies its length from the payload of one
answer: the primary's if that one has succeeded, else the backup's. With the segments of the
splitter every byte of the buffer lies in exactly one of them, so that answers which carry
the bytes of their segments fill it completely. -/

namespace IoTDrive.Master

open Lib Message Stripe SegmentState

/-- The answer that a resolved read segment uses. -/
def chosen (as : List Answer) (k : ℕ) : Option AMessage :=
  if succeeded (latest as k .primary) = true then latest as k .primary else latest as k .backup

variable {as p q : List Answer} {a : Answer} {k : ℕ} {r : MirrorRole} {s : StripeSegment}

theorem select_resolved (h : isSegmentResolved .read (heard as k s) = true) :
    (heard as k s).selectSegmentMessage = chosen as k := by
  rw [resolved_read_iff] at h
  rw [select_heard]
  unfold chosen
  split_ifs with hp hb
  · rfl
  · rfl
  · rcases h with h | h
    · exact absurd h hp
    · exact absurd h hb

/-- A chosen answer that succeeds is the primary's, or the backup's where the primary has not
succeeded. -/
theorem exists_chosen (h : succeeded (chosen as k) = true) :
    ∃ b ∈ as, b.segment = k ∧ chosen as k = b.message ∧
      (b.role = .primary ∨ b.role = .backup ∧ succeeded (latest as k .primary) = false) := by
  unfold chosen at h ⊢
  split_ifs at h ⊢ with hp
  · obtain ⟨b, hb, hk, hr, hl⟩ := exists_latest (succeeded_arrived hp)
    exact ⟨b, hb, hk, hl, .inl hr⟩
  · obtain ⟨b, hb, hk, hr, hl⟩ := exists_latest (succeeded_arrived h)
    exact ⟨b, hb, hk, hl, .inr ⟨hr, by simpa using hp⟩⟩

namespace SegmentState

/-- What the `memcpy` of a segment writes, if it is made. -/
def payload (g : SegmentState) : Option (List (Option UInt8)) :=
  (g.selectSegmentMessage.bind AMessage.getData).map fun data =>
    memRead (data.map some) (fun _ => none) g.length

theorem copyTo_payload (g : SegmentState) (buf : List (Option UInt8)) :
    copyTo buf g = g.payload.elim buf (writeAt none buf g.bufferOffset) := by
  unfold copyTo payload
  cases g.selectSegmentMessage.bind AMessage.getData with
  | none => rfl
  | some data => rfl

end SegmentState

/-- A byte of a copy is the byte of the payload, or nothing behind its end. -/
theorem getElem?_memRead_payload {data : List UInt8} {n j : ℕ} (hj : j < n) :
    (memRead (data.map some) (fun _ => none) n)[j]? = some data[j]? := by
  unfold memRead
  rw [List.getElem?_map, List.getElem?_range hj, Option.map_some, List.getElem?_map]
  cases data[j]? with
  | none => rfl
  | some x => rfl

theorem select_resolvedBy {segs : List StripeSegment} (hr : Ticket.resolvedBy .read segs as = true)
    (hs : segs[k]? = some s) : (heard as k s).selectSegmentMessage = chosen as k :=
  select_resolved ((Ticket.resolvedBy_iff as).mp hr k s hs)

namespace Ticket

variable {uid : UID} {n : ℕ} {segs : List StripeSegment}

/-- The buffer that a waiting read ticket would gather. -/
def gathered (n : ℕ) (segs : List StripeSegment) (as : List Answer) : List (Option UInt8) :=
  (segs.mapIdx fun k s => heard as k s).foldl copyTo (List.replicate n none)

/-- Every byte of the buffer is still indeterminate, with no copy over it, or from a copy over
it. -/
theorem gathered_cases (as : List Answer)
    (hin : ∀ s ∈ segs, s.bufferOffset + s.length ≤ n) :
    (gathered n segs as).length = n ∧ ∀ i < n,
      (gathered n segs as)[i]? = some none ∧
          (∀ (k : ℕ) (s : StripeSegment), segs[k]? = some s → s.bufferOffset ≤ i →
            i < s.bufferOffset + s.length →
            (heard as k s).selectSegmentMessage.bind AMessage.getData = none) ∨
        ∃ (k : ℕ) (s : StripeSegment) (data : List UInt8), segs[k]? = some s ∧
          s.bufferOffset ≤ i ∧ i < s.bufferOffset + s.length ∧
          (heard as k s).selectSegmentMessage.bind AMessage.getData = some data ∧
          (gathered n segs as)[i]? = some data[i - s.bufferOffset]? := by
  have hblocks : ∀ g ∈ segs.mapIdx (fun k s => heard as k s),
      (∀ l, copyTo l g = g.payload.elim l (writeAt none l g.bufferOffset)) ∧
        ∀ xs, g.payload = some xs → g.bufferOffset + xs.length ≤ n := by
    intro g hg
    refine ⟨fun l => copyTo_payload g l, fun xs hxs => ?_⟩
    obtain ⟨k, hk, rfl⟩ := List.mem_mapIdx.mp hg
    obtain ⟨data, -, rfl⟩ := Option.map_eq_some_iff.mp hxs
    rw [memRead_length]
    exact hin _ (List.getElem_mem hk)
  obtain ⟨hlen, hval⟩ := foldl_blocks hblocks (List.length_replicate (a := none))
  refine ⟨hlen, fun i hi => ?_⟩
  rcases hval i hi with ⟨hold, hnone⟩ | ⟨g, hg, xs, hxs, hle, hlt, hnew⟩
  · refine .inl ⟨?_, ?_⟩
    · show (List.foldl _ _ _)[i]? = _
      rw [hold, List.getElem?_replicate, if_pos hi]
    · intro k s hs hle hlt
      cases hsel : (heard as k s).selectSegmentMessage.bind AMessage.getData with
      | none => rfl
      | some data =>
        have hpay : (heard as k s).payload =
            some (memRead (data.map some) (fun _ => none) s.length) := by
          unfold payload
          rw [hsel]
          rfl
        have hmem : heard as k s ∈ segs.mapIdx (fun k s => heard as k s) := by
          rw [List.mem_iff_getElem?]
          exact ⟨k, by rw [List.getElem?_mapIdx, hs]; rfl⟩
        exact absurd ⟨hle, by rw [memRead_length]; exact hlt⟩ (hnone _ hmem _ hpay)
  · right
    obtain ⟨k, hk, rfl⟩ := List.mem_mapIdx.mp hg
    obtain ⟨data, hdata, rfl⟩ := Option.map_eq_some_iff.mp hxs
    rw [memRead_length] at hlt
    have hle' : segs[k].bufferOffset ≤ i := hle
    have hlt' : i < segs[k].bufferOffset + segs[k].length := hlt
    refine ⟨k, segs[k], data, List.getElem?_eq_getElem hk, hle', hlt', hdata, ?_⟩
    show (List.foldl _ _ _)[i]? = _
    rw [hnew]
    exact getElem?_memRead_payload (by omega)

/-- A successful outcome carries what was gathered. -/
theorem outcome_success (h : (waiting uid .read n segs as).outcome.result = true) :
    (waiting uid .read n segs as).outcome = ⟨uid, true, n, some (gathered n segs as)⟩ := by
  unfold outcome at h ⊢
  simp only at h ⊢
  rw [h]
  rfl

theorem outcome_success_iff (uid : UID) (n : ℕ) (hr : resolvedBy .read segs as = true) :
    (waiting uid .read n segs as).outcome.result = true ↔
      ∀ k < segs.length, succeeded (chosen as k) = true := by
  show (segs.mapIdx fun k s => heard as k s).all (isSegmentSuccessful .read) = true ↔ _
  rw [all_waiting_iff]
  constructor
  · intro h k hk
    have hs : segs[k]? = some segs[k] := List.getElem?_eq_getElem hk
    rw [← select_resolvedBy hr hs]
    exact h k _ hs
  · intro h k s hs
    obtain ⟨hk, -⟩ := List.getElem?_eq_some_iff.mp hs
    unfold isSegmentSuccessful
    simp only [select_resolvedBy hr hs]
    exact h k hk

end Ticket

end IoTDrive.Master
