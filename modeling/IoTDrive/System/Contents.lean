import IoTDrive.System.Sequential

/-! The files, the answers and the replies of requests issued one after another, compared
with the flat drive. A segment of a pending read is looked up in the cells of clean
bytes, a pending write stores its data cell by cell, and what a neighbour of a byte
receives can reach only bytes that are no longer clean. -/

namespace IoTDrive.System

open Lib Message Minion Stripe Master Drive

variable {M : MinionManager} {s s' : Sys}

/-- The byte in one of the two cells of a drive address. -/
def Sys.cell (M : MinionManager) (s : Sys) (r : MirrorRole) (a : ℕ) : Option UInt8 :=
  (s.files (M.minionOf r a)).content[a % M.mbMinion]?

/-- What a minion with a healthy file answers for a segment. -/
def expected (c : Contents) (uid : UID) (req : Request) (g : StripeSegment) : AMessage :=
  match req.op with
  | .read => .readReceive uid 1 (UInt64.ofNat g.length)
      (some (readBytes c (req.offset.toNat + g.bufferOffset) g.length))
  | .write => .writeReceive uid 1

/-- The segment holds the address. -/
def Holds (req : Request) (g : StripeSegment) (a : ℕ) : Prop :=
  req.offset.toNat + g.bufferOffset ≤ a ∧ a < req.offset.toNat + g.bufferOffset + g.length

/-! ### Segments and cells -/

section Segment
variable {req : Request} {g : StripeSegment} {a : ℕ}

/-- The place of an address in the segment that holds it. -/
theorem locate_of_holds (hin : M.InRange req.offset.toNat req.length.toNat)
    (hg : g ∈ M.segments req.offset.toNat req.length.toNat) (ha : Holds req g a) (r : MirrorRole) :
    roleMinion g r = M.minionOf r a ∧ Covers req a ∧
      g.localOffset + (a - (req.offset.toNat + g.bufferOffset)) = a % M.mbMinion := by
  obtain ⟨hseg, -, -⟩ := MinionManager.segments_mem hin hg
  obtain ⟨h1, h2⟩ := ha
  have hwithin := hseg.within
  obtain ⟨k, rfl⟩ := Nat.exists_eq_add_of_le (show req.offset.toNat ≤ a by omega)
  obtain ⟨hdiv, hmod⟩ := hseg.locate (k := k) (by omega) (by omega)
  refine ⟨?_, ⟨by omega, by omega⟩, by rw [hmod]; omega⟩
  cases r with
  | primary => exact hdiv.symm
  | backup => simp only [roleMinion, MinionManager.minionOf, getPrimaryIndex, hdiv, hseg.backup]

theorem lt_driveSize_of_covers (hin : M.InRange req.offset.toNat req.length.toNat)
    (ha : Covers req a) : a < M.getDriveSize := by
  have := ha.2
  simp only [MinionManager.InRange] at hin
  omega

/-- Every byte of a request lies in one of its segments. -/
theorem exists_holds (hin : M.InRange req.offset.toNat req.length.toNat) (ha : Covers req a) :
    ∃ g ∈ M.segments req.offset.toNat req.length.toNat, Holds req g a := by
  have hmem : a - req.offset.toNat ∈ List.range req.length.toNat := by
    have := ha.1
    have := ha.2
    simp
    omega
  rw [← MinionManager.segments_ranges hin, List.mem_flatMap] at hmem
  obtain ⟨g, hg, hr⟩ := hmem
  rw [List.mem_range'_1] at hr
  have := ha.1
  exact ⟨g, hg, by omega, by omega⟩

/-- The bytes of a file at a segment whose cells hold the values of an array. -/
theorem content_of_cells (hin : M.InRange req.offset.toNat req.length.toNat)
    (hg : g ∈ M.segments req.offset.toNat req.length.toNat) {f : FileManager} {c : Contents}
    (hc : ∀ a, Holds req g a → f.content[a % M.mbMinion]? = some (c a)) :
    (f.content.drop g.localOffset).take g.length =
      readBytes c (req.offset.toNat + g.bufferOffset) g.length := by
  apply List.ext_getElem?
  intro i
  rcases Nat.lt_or_ge i g.length with hi | hi
  · have hholds : Holds req g (req.offset.toNat + g.bufferOffset + i) := ⟨by omega, by omega⟩
    have hloc := (locate_of_holds hin hg hholds .primary).2.2
    rw [show req.offset.toNat + g.bufferOffset + i - (req.offset.toNat + g.bufferOffset) = i by
      omega] at hloc
    rw [getElem?_take_drop hi, hloc, hc _ hholds]
    simp [readBytes, hi]
  · rw [List.getElem?_eq_none (by simp; omega), List.getElem?_eq_none (by simp [readBytes]; omega)]

/-- A store of a segment in a cell of `a` is a store of `a` itself or of a neighbour. -/
theorem covered_of_cell (hin : M.InRange req.offset.toNat req.length.toNat)
    (hg : g ∈ M.segments req.offset.toNat req.length.toNat) {r q : MirrorRole}
    (ha : a < M.getDriveSize) (hm : M.minionOf r a = roleMinion g q)
    (h1 : g.localOffset ≤ a % M.mbMinion) (h2 : a % M.mbMinion < g.localOffset + g.length) :
    Holds req g a ∨ TouchesNeighbour M req a := by
  set b := req.offset.toNat + g.bufferOffset + (a % M.mbMinion - g.localOffset) with hb
  have hholds : Holds req g b := ⟨by omega, by omega⟩
  obtain ⟨hmin, hcov, hoff⟩ := locate_of_holds hin hg hholds q
  have hmod : a % M.mbMinion = b % M.mbMinion := by
    rw [← hoff]
    omega
  by_cases hab : a = b
  · exact .inl (hab ▸ hholds)
  · refine .inr ⟨b, by rw [List.mem_range'_1]; exact hcov, fun he => hab he.symm, ?_⟩
    refine MinionManager.neighbours_of_cell_eq ha (lt_driveSize_of_covers hin hcov) hab (r := r)
      (q := q) ?_
    rw [MinionManager.cell, MinionManager.cell, hm, hmin, hmod]

end Segment

/-! ### Completed tickets -/

theorem expected_getResult (c : Contents) (uid : UID) (req : Request) (g : StripeSegment) :
    (expected c uid req g).getResult = true := by
  unfold expected
  split <;> rfl

/-- All answers of a completed ticket are the expected ones: its reply is that of the
flat drive. -/
theorem reply_of_expected {job : Job} {t : Ticket} {c : Contents} (ht : job.ticket = some t)
    (hsound : job.Sound) (hin : M.InRange job.req.offset.toNat job.req.length.toNat)
    (hplan : Planned M job)
    (hres : t.segments.all (SegmentState.isSegmentResolved job.req.op) = true)
    (hrec : ∀ (x : ℕ) (g : SegmentState) (seg : StripeSegment) (r : MirrorRole),
      t.segments[x]? = some g → (job.segments M)[x]? = some seg → g.done r = true →
        g.msg r = some (expected c job.uid job.req seg)) :
    job.reply = (Drive.reply c job.req).map some := by
  obtain ⟨-, hop, htot⟩ := hsound.ticket_eq t ht
  have hshape := hplan.shape t ht
  -- every segment of the ticket, with the segment of the split it stands for
  have hseg : ∀ g ∈ t.segments, ∃ seg ∈ job.segments M,
      g.length = seg.length ∧ g.bufferOffset = seg.bufferOffset ∧
        ∀ r, g.done r = true → g.msg r = some (expected c job.uid job.req seg) := by
    intro g hg
    obtain ⟨x, hx⟩ := List.mem_iff_getElem?.mp hg
    have hx' := congrArg (fun l => l[x]?) hshape
    simp only [List.getElem?_map, hx, Option.map_some] at hx'
    obtain ⟨seg, hs, he⟩ := Option.map_eq_some_iff.mp hx'.symm
    simp only [Prod.mk.injEq] at he
    exact ⟨seg, List.mem_of_getElem? hs, he.1.symm, he.2.symm, fun r => hrec x g seg r hx hs⟩
  have hall : t.segments.all (SegmentState.isSegmentSuccessful t.op) = true := by
    rw [List.all_eq_true, hop]
    intro g hg
    obtain ⟨seg, -, -, -, hmsg⟩ := hseg g hg
    exact Ticket.successful_of_resolved (List.all_eq_true.mp hres g hg) hmsg
      (expected_getResult c job.uid job.req seg)
  have hresult : t.outcome.result = true := hall
  have hreply : job.reply = (NbdReply.header ⟨0, job.req.handle⟩).map some ++
      t.outcome.payload := by
    simp [Job.reply, ht, NbdReply.bytes, hresult]
  rw [hreply, Drive.reply, List.map_append]
  congr 1
  cases hread : job.req.op with
  | write =>
    have hnone : t.outcome.buffer = none := by simp [Ticket.outcome, hop, hread]
    simp [TaskResult.payload, hnone]
  | read =>
    rw [hread] at hop hres
    have hgather := Ticket.gather_eq (t := t) (v := fun k => c (job.req.offset.toNat + k))
      (fun g hg => by
        obtain ⟨seg, -, hl, hb, hmsg⟩ := hseg g hg
        refine ⟨_, Ticket.select_of_resolved (List.all_eq_true.mp hres g hg) hmsg
          (expected_getResult c job.uid job.req seg), ?_⟩
        simp only [expected, hread, AMessage.getData, hl, hb, readBytes_add])
      (fun g hg => by
        obtain ⟨seg, hs, hl, hb, -⟩ := hseg g hg
        have := (MinionManager.segments_mem hin hs).1.within
        omega)
      (by
        have h1 := congrArg (List.flatMap fun p : ℕ × ℕ => List.range' p.2 p.1) hshape
        rw [List.flatMap_map, List.flatMap_map] at h1
        rw [h1, htot]
        exact MinionManager.segments_ranges hin)
    have hbuf : t.outcome.buffer =
        some ((List.range t.totalLength).map fun k => some (c (job.req.offset.toNat + k))) := by
      rw [hop] at hall
      rw [← hgather]
      simp [Ticket.outcome, hop, hall]
    have hlen : t.outcome.length = t.totalLength := rfl
    have hbytes : readBytes c job.req.offset.toNat job.req.length.toNat =
        (List.range t.totalLength).map fun k => c (job.req.offset.toNat + k) := by
      have := readBytes_add c job.req.offset.toNat 0 job.req.length.toNat
      rw [Nat.add_zero, ← List.range_eq_range'] at this
      rw [this, htot]
    simp only [TaskResult.payload, hresult, hbuf, hlen, if_true, hbytes, List.map_map]
    rw [memRead_of_le _ (by simp), List.take_of_length_le (by simp)]
    rfl

end IoTDrive.System
