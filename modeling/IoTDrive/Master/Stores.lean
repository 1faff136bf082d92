import IoTDrive.Master.Agreement
import Mathlib.Data.List.Perm.Lattice
import Mathlib.Data.List.FinRange

/-! A drive write as single byte stores. The datagrams of a write, decoded and executed at
their minions, store every byte of the buffer once at its primary and once at its
backup and touch nothing else: in particular not with the byte that a write request
carries behind its data. The store of a byte is written from the drive address
alone; the proof follows the address through the split, the slice, the message and
the file. -/

namespace IoTDrive.Master

open Lib Message Minion Stripe

/-- One byte put into a minion's file: the minion, the offset and the value. -/
abbrev CellStore := ℕ × ℕ × UInt8

/-- The stores a drive write is for: every byte at its two copies. -/
def driveStores (M : MinionManager) (offset length : ℕ) (buffer : List UInt8) : List CellStore :=
  (List.range length).flatMap fun k =>
    [((offset + k) / M.mbMinion, (offset + k) % M.mbMinion, buffer.getD k 0),
      (((offset + k) / M.mbMinion + 1) % M.numMinions, (offset + k) % M.mbMinion,
        buffer.getD k 0)]

/-- The stores that executing a datagram at a minion performs: those of the write the
decoded arguments ask for. -/
def datagramStores (stack : ℕ → UInt8) (p : ℕ × List UInt8) : List CellStore :=
  match getTaskArgs stack p.2 with
  | .args (.write _ offset length buffer) =>
    (blockStores offset (buffer.take length)).map fun s => (p.1, s.1, s.2)
  | _ => []

/-- Execute datagrams at their minions, one after another. -/
def serveAll (stack heap : ℕ → UInt8) :
    (ℕ → FileManager) → List (ℕ × List UInt8) → Option (ℕ → FileManager)
  | files, [] => some files
  | files, p :: ps =>
    (serve stack heap (files p.1) p.2).bind fun r =>
      serveAll stack heap (Function.update files p.1 r.1) ps

/-- The stores for one minion, in order. -/
def storesAt (m : ℕ) (l : List CellStore) : List (ℕ × UInt8) :=
  (l.filter fun s => s.1 = m).map Prod.snd

theorem storesAt_append (m : ℕ) (l l' : List CellStore) :
    storesAt m (l ++ l') = storesAt m l ++ storesAt m l' := by simp [storesAt]

theorem storesAt_map (m n : ℕ) (l : List (ℕ × UInt8)) :
    storesAt m (l.map fun p => (n, p.1, p.2)) = if m = n then l else [] := by
  split_ifs with h
  · subst h
    induction l with
    | nil => rfl
    | cons p l ih => simpa [storesAt] using ih
  · induction l with
    | nil => rfl
    | cons p l ih => simpa [storesAt, Ne.symm h] using ih

/-- The datagrams of the sends; `beyond` is the memory behind each slice. -/
def encodeSends (beyond : SendOp → ℕ → UInt8) (ops : List SendOp) :
    Option (List (ℕ × List UInt8)) :=
  ops.mapM fun o => (o.message.datagram (beyond o)).map fun d => (o.minion, d)

section Segment
variable {M : MinionManager} {offset length : ℕ} {data : List UInt8} {s : StripeSegment}

/-- The stores of a slice at a minion, by drive address. -/
theorem sliceStores_eq (hseg : SegmentOf offset length M.mbMinion M.numMinions s)
    (hdata : data.length = length) (m : ℕ) :
    (blockStores s.localOffset (slice data s)).map (fun p => (m, p.1, p.2)) =
      (List.range' s.bufferOffset s.length).map
        fun k => (m, (offset + k) % M.mbMinion, data.getD k 0) := by
  have hin := hseg.within
  have hlen := slice_length (show s.bufferOffset + s.length ≤ data.length by omega)
  apply List.ext_getElem
  · simp [blockStores, hlen]
  · intro i h1 h2
    have hi : i < s.length := by simpa using h2
    have hloc := (hseg.locate (k := s.bufferOffset + i) (by omega) (by omega)).2
    have hd : s.bufferOffset + i < data.length := by omega
    simp [blockStores, slice, hloc, hd]

/-- The stores of one segment, at both its minions. -/
theorem segmentStores_perm (hseg : SegmentOf offset length M.mbMinion M.numMinions s)
    (hdata : data.length = length) (hp : s.primaryMinionIndex < M.numMinions) :
    ((blockStores s.localOffset (slice data s)).map
          (fun p => (s.primaryMinionIndex, p.1, p.2)) ++
        (blockStores s.localOffset (slice data s)).map
          (fun p => (s.backupMinionIndex, p.1, p.2))).Perm
      ((List.range' s.bufferOffset s.length).flatMap fun k =>
        [((offset + k) / M.mbMinion, (offset + k) % M.mbMinion, data.getD k 0),
          (((offset + k) / M.mbMinion + 1) % M.numMinions, (offset + k) % M.mbMinion,
            data.getD k 0)]) := by
  rw [sliceStores_eq hseg hdata, sliceStores_eq hseg hdata]
  have hback : s.backupMinionIndex = (s.primaryMinionIndex + 1) % M.numMinions := by
    rw [hseg.backup, MinionManager.getBackupIndex_eq hp]
  have hprim : ∀ k ∈ List.range' s.bufferOffset s.length,
      (offset + k) / M.mbMinion = s.primaryMinionIndex := by
    intro k hk
    rw [List.mem_range'_1] at hk
    exact (hseg.locate hk.1 hk.2).1
  rw [List.map_eq_flatMap, List.map_eq_flatMap]
  refine (List.flatMap_append_perm _ _ _).trans (List.Perm.of_eq ?_)
  apply List.flatMap_congr
  intro k hk
  rw [hprim k hk, ← hback]
  rfl

end Segment

section Write
variable {M : MinionManager} {offset length : ℕ} {data : List UInt8}

/-- A send of a write, executed: the stores of its slice. -/
theorem datagramStores_eq (h : M.InRange offset length) (hdata : data.length = length)
    (hfit : ∀ s ∈ M.segments offset length, s.length ≤ maxWriteLength) {s : StripeSegment}
    (hs : s ∈ M.segments offset length) {uid : UID} {beyond : ℕ → UInt8} {d : List UInt8}
    (hd : (segmentMessage .write uid data s).datagram beyond = some d) (stack : ℕ → UInt8)
    (m : ℕ) :
    datagramStores stack (m, d) =
      (blockStores s.localOffset (slice data s)).map fun p => (m, p.1, p.2) := by
  have hw := segmentWords h hs
  have hlen := slice_length_of_mem h hdata hs
  have hargs := getTaskArgs_writeSend
    (show (slice data s).length = _ by rw [hw.length_eq]; exact hlen) (by rw [hlen]; exact hfit s hs) hd stack
  rw [hw.offset_eq, hw.length_eq] at hargs
  simp only [datagramStores, hargs, List.take_left' hlen]

/-- All sends of a write can be encoded. -/
theorem exists_datagram (h : M.InRange offset length) (hdata : data.length = length)
    (hfit : ∀ s ∈ M.segments offset length, s.length ≤ maxWriteLength) {s : StripeSegment}
    (hs : s ∈ M.segments offset length) (uid : UID) (beyond : ℕ → UInt8) :
    ∃ d, (segmentMessage .write uid data s).datagram beyond = some d := by
  have hw := segmentWords h hs
  have hlen := slice_length_of_mem h hdata hs
  have hl := hfit s hs
  obtain ⟨d, hd, -⟩ := receive_datagram minionTypes (segmentMessage .write uid data s) beyond
    (by simp [minionTypes, segmentMessage, AMessage.getMessageType])
    ⟨_, rfl, by rw [hw.length_eq]; exact hlen⟩ (by
      simp only [segmentMessage, AMessage.wireSize, hw.length_eq, maxWriteLength, bufsiz] at hl ⊢
      omega)
  exact ⟨d, hd⟩

/-- The sends of a list of segments, encoded and executed: their stores, segment by
segment. -/
theorem encodeSends_stores (h : M.InRange offset length) (hdata : data.length = length)
    (hfit : ∀ s ∈ M.segments offset length, s.length ≤ maxWriteLength) (uid : UID)
    (beyond : SendOp → ℕ → UInt8) (stack : ℕ → UInt8) :
    ∀ ps : List (StripeSegment × ℕ), (∀ p ∈ ps, p.1 ∈ M.segments offset length) →
      ∃ ds, encodeSends beyond (ps.flatMap (segmentSends .write uid data)) = some ds ∧
        ds.flatMap (datagramStores stack) = ps.flatMap fun p =>
          (blockStores p.1.localOffset (slice data p.1)).map
              (fun q => (p.1.primaryMinionIndex, q.1, q.2)) ++
            (blockStores p.1.localOffset (slice data p.1)).map
              (fun q => (p.1.backupMinionIndex, q.1, q.2)) := by
  intro ps
  induction ps with
  | nil => intro _; exact ⟨[], rfl, rfl⟩
  | cons p ps ih =>
    intro hmem
    have hp := hmem p (by simp)
    obtain ⟨ds, hds, hst⟩ := ih fun q hq => hmem q (by simp [hq])
    obtain ⟨d₁, h₁⟩ := exists_datagram h hdata hfit hp uid
      (beyond ⟨p.1.primaryMinionIndex, p.2, .primary, segmentMessage .write uid data p.1⟩)
    obtain ⟨d₂, h₂⟩ := exists_datagram h hdata hfit hp uid
      (beyond ⟨p.1.backupMinionIndex, p.2, .backup, segmentMessage .write uid data p.1⟩)
    refine ⟨(p.1.primaryMinionIndex, d₁) :: (p.1.backupMinionIndex, d₂) :: ds, ?_, ?_⟩
    · simp only [encodeSends] at hds ⊢
      simp [segmentSends, h₁, h₂, hds]
    · simp [datagramStores_eq h hdata hfit hp h₁, datagramStores_eq h hdata hfit hp h₂, hst]

/-- Executing the encoded sends of a write at healthy files applies their stores. -/
theorem serveAll_stores (h : M.InRange offset length) (hdata : data.length = length)
    (hfit : ∀ s ∈ M.segments offset length, s.length ≤ maxWriteLength) {uid : UID}
    {beyond : SendOp → ℕ → UInt8} (stack heap : ℕ → UInt8) :
    ∀ (ops : List SendOp) (ds : List (ℕ × List UInt8)) (files : ℕ → FileManager),
      (∀ o ∈ ops, ∃ s ∈ M.segments offset length, o.message = segmentMessage .write uid data s) →
      encodeSends beyond ops = some ds → (∀ m, (files m).Serves M.mbMinion) →
      ∃ files', serveAll stack heap files ds = some files' ∧
        (∀ m, (files' m).Serves M.mbMinion) ∧
        ∀ m, (files' m).content =
          (storesAt m (ds.flatMap (datagramStores stack))).foldl store (files m).content := by
  intro ops
  induction ops with
  | nil =>
    intro ds files _ hds hf
    obtain rfl : ds = [] := by simpa [encodeSends] using hds.symm
    exact ⟨files, rfl, hf, fun m => rfl⟩
  | cons o ops ih =>
    intro ds files hops hds hf
    obtain ⟨s, hs, hmsg⟩ := hops o (by simp)
    simp only [encodeSends, List.mapM_cons, Option.pure_def, Option.bind_eq_bind,
      Option.bind_eq_some_iff, Option.some.injEq] at hds
    obtain ⟨p, hp, rest, hrest, rfl⟩ := hds
    obtain ⟨d, hd, rfl⟩ := Option.map_eq_some_iff.mp hp
    rw [hmsg] at hd
    have hw := segmentWords h hs
    have hlen := slice_length_of_mem h hdata hs
    have hseg := (MinionManager.segments_mem h hs).1
    obtain ⟨q, a, hserve, -⟩ := serve_writeSend (hf o.minion)
      (by rw [hw.length_eq]; exact hlen)
      (by rw [hw.offset_eq, hlen]; exact hseg.fits) (by rw [hlen]; exact hfit s hs) hd stack heap
    rw [hw.offset_eq] at hserve
    have hstores := datagramStores_eq h hdata hfit hs hd stack o.minion
    set f₁ : FileManager := { files o.minion with
      content := writeAt 0 (files o.minion).content s.localOffset (slice data s), pos := q } with hf₁
    have hf' : ∀ m, (Function.update files o.minion f₁ m).Serves M.mbMinion := by
      intro m
      by_cases hm : m = o.minion
      · subst hm
        rw [Function.update_self]
        exact (hf o.minion).writeAt (by rw [hlen]; exact hseg.fits)
      · rw [Function.update_of_ne hm]
        exact hf m
    obtain ⟨files', hrun, hserves, hcont⟩ := ih rest _ (fun o' ho' => hops o' (by simp [ho']))
      hrest hf'
    refine ⟨files', ?_, hserves, fun m => ?_⟩
    · simp only [serveAll, hserve, Option.bind_some]
      exact hrun
    · rw [hcont m, List.flatMap_cons, hstores, storesAt_append, storesAt_map, List.foldl_append]
      split_ifs with hm
      · subst hm
        rw [Function.update_self, foldl_store_blockStores 0 (slice data s)
          (files o.minion).content s.localOffset
          (by rw [hlen, (hf o.minion).length_eq]; exact hseg.fits)]
      · rw [Function.update_of_ne hm, List.foldl_nil]

end Write

/-- The datagrams that `AddWriteTask` sends for a write on the drive, executed at their
minions, perform exactly the stores of the drive write, each once: the files change by
these stores and by nothing else, whatever stands in memory behind the slices. -/
theorem write_fanOut_stores (M : MinionManager) (uid : UID) (offset length : ℕ)
    (buffer : List UInt8) (h : M.InRange offset length) (hbuf : buffer.length = length)
    (hfit : ∀ s ∈ M.segments offset length, s.length ≤ maxWriteLength)
    (beyond : SendOp → ℕ → UInt8) (stack heap : ℕ → UInt8) :
    ∃ t ops ds, addWriteTask M uid offset length buffer = .ok (t, ops) ∧
      encodeSends beyond ops = some ds ∧
      (ds.flatMap (datagramStores stack)).Perm (driveStores M offset length buffer) ∧
      ∀ files : ℕ → FileManager, (∀ m, (files m).Serves M.mbMinion) →
        ∃ files', serveAll stack heap files ds = some files' ∧
          ∀ m, (files' m).content =
            (storesAt m (ds.flatMap (datagramStores stack))).foldl store (files m).content := by
  obtain ⟨ds, hds, hst⟩ := encodeSends_stores h hbuf hfit uid beyond stack
    (M.segments offset length).zipIdx (fun p hp => by
      have := List.mem_zipIdx_iff_getElem?.mp hp
      exact List.mem_of_getElem? this)
  refine ⟨_, _, ds, addTask_inRange h .write uid buffer, hds, ?_, fun files hf => ?_⟩
  · rw [hst, driveStores, ← MinionManager.segments_ranges h, List.flatMap_assoc]
    have hzip : (M.segments offset length).zipIdx.map Prod.fst = M.segments offset length :=
      List.zipIdx_map_fst _ _
    conv_rhs => rw [← hzip, List.flatMap_map]
    apply List.Perm.flatMap_left
    intro p hp
    have hmem : p.1 ∈ M.segments offset length :=
      List.mem_of_getElem? (List.mem_zipIdx_iff_getElem?.mp hp)
    obtain ⟨hseg, hprim, -⟩ := MinionManager.segments_mem h hmem
    exact segmentStores_perm hseg hbuf hprim
  · obtain ⟨files', hrun, -, hcont⟩ := serveAll_stores h hbuf hfit stack heap
      (fanOut .write uid buffer (M.segments offset length)) ds files (fun o ho => by
        obtain ⟨s, hs, -, hm⟩ := mem_fanOut.mp ho
        exact ⟨s, List.mem_of_getElem? hs, hm⟩) hds hf
    exact ⟨files', hrun, hcont⟩

/-- A write of five bytes across the end of the first chunk of the small drive. -/
theorem write_fanOut_stores_crossing :
    MinionManager.smallDrive.InRange 2 5 ∧
      (∀ s ∈ MinionManager.smallDrive.segments 2 5, s.length ≤ maxWriteLength) ∧
      ∃ t ops ds, addWriteTask MinionManager.smallDrive 1 2 5 [1, 2, 3, 4, 5] = .ok (t, ops) ∧
        encodeSends (fun _ _ => 9) ops = some ds ∧
        (ds.flatMap (datagramStores fun _ => 0)).Perm
          (driveStores MinionManager.smallDrive 2 5 [1, 2, 3, 4, 5]) := by
  have h : MinionManager.smallDrive.InRange 2 5 := by decide
  have hfit : ∀ s ∈ MinionManager.smallDrive.segments 2 5, s.length ≤ maxWriteLength := by
    decide +kernel
  obtain ⟨t, ops, ds, ht, hds, hperm, -⟩ := write_fanOut_stores MinionManager.smallDrive 1 2 5
    [1, 2, 3, 4, 5] h rfl hfit (fun _ _ => 9) (fun _ => 0) (fun _ => 0)
  exact ⟨h, hfit, t, ops, ds, ht, hds, hperm⟩

end IoTDrive.Master
