import IoTDrive.System.Refinement

/-! Executions of the refinement. A healthy minion that executes a request of the master
changes no byte for a read, and for a write the cells of its bytes. A pending read
looks only at cells of clean bytes; a store can reach another byte only through a
cell of a neighbour. -/

namespace IoTDrive.System

open Lib Message Minion Stripe Master Drive

variable {M : MinionManager} {s s' : Sys} {k : ℕ}

/-! ### One datagram at a healthy minion -/

section Serve
variable {job : Job} {o : SendOp} {g : StripeSegment} {p : Packet} {f f' : FileManager}
  {a : Option (List UInt8)} {stack heap : ℕ → UInt8}

theorem served_read (hf : f.Serves M.mbMinion) (hcar : Carried M job.req)
    (hop : job.req.op = .read) (hg : g ∈ job.segments M)
    (hmsg : o.message = segmentMessage job.req.op job.uid job.req.data g) (hr : IsRequest p o)
    (h : serve stack heap f p.bytes = some (f', a)) :
    f'.content = f.content ∧ f'.Serves M.mbMinion ∧
      ∃ d, a = some d ∧ ∀ stack', receive masterTypes stack' d =
        .message (.readReceive job.uid 1 (UInt64.ofNat g.length)
          (some ((f.content.drop g.localOffset).take g.length))) := by
  obtain ⟨beyond, hd⟩ := hr
  rw [hmsg, hop] at hd
  have hw := segmentWords hcar.1 hg
  have hfits := (MinionManager.segments_mem hcar.1 hg).1.fits
  have hmax := hcar.2.2 g hg
  rw [hop] at hmax
  obtain ⟨q, d, hserve, hdec⟩ := serve_readSend hf (by rw [hw.offset_eq, hw.length_eq]; exact hfits)
    (by rw [hw.length_eq]; exact hmax) hd stack heap
  rw [hw.offset_eq, hw.length_eq] at hdec
  rw [hserve, Option.some.injEq, Prod.mk.injEq] at h
  obtain ⟨rfl, rfl⟩ := h
  exact ⟨rfl, hf.withPos, d, rfl, hdec⟩

theorem served_write (hf : f.Serves M.mbMinion) (hcar : Carried M job.req)
    (hop : job.req.op = .write) (hg : g ∈ job.segments M)
    (hmsg : o.message = segmentMessage job.req.op job.uid job.req.data g) (hr : IsRequest p o)
    (h : serve stack heap f p.bytes = some (f', a)) :
    f'.content = writeAt 0 f.content g.localOffset (slice job.req.data g) ∧
      f'.Serves M.mbMinion ∧
      ∃ d, a = some d ∧ ∀ stack', receive masterTypes stack' d =
        .message (.writeReceive job.uid 1) := by
  obtain ⟨beyond, hd⟩ := hr
  rw [hmsg, hop] at hd
  have hw := segmentWords hcar.1 hg
  have hfits := (MinionManager.segments_mem hcar.1 hg).1.fits
  have hlen : (slice job.req.data g).length = g.length :=
    slice_length_of_mem hcar.1 (by rw [job.req.data_length, if_pos hop]) hg
  have hmax := hcar.2.2 g hg
  rw [hop] at hmax
  obtain ⟨q, d, hserve, hdec⟩ := serve_writeSend hf (by rw [hw.length_eq]; exact hlen)
    (by rw [hw.offset_eq, hlen]; exact hfits) (by rw [hlen]; exact hmax) hd stack heap
  rw [hw.offset_eq] at hserve
  rw [hserve, Option.some.injEq, Prod.mk.injEq] at h
  obtain ⟨rfl, rfl⟩ := h
  exact ⟨rfl, hf.writeAt (by rw [hlen]; exact hfits), d, rfl, hdec⟩

end Serve

/-! ### Executions -/

section Execute
variable {i n j : ℕ} {stack heap : ℕ → UInt8} {p : Packet} {f : FileManager}
  {b : Option (List UInt8)} {job : Job} {o : SendOp} {g : StripeSegment}

/-- The answers after an execution: those before, and that of the send. -/
theorem Executes.mem_toMaster (h : Executes s s' i stack heap p f b) {q : Packet}
    (hq : q ∈ s'.toMaster) :
    q ∈ s.toMaster ∨ ∃ d, b = some d ∧ q = ⟨p.minion, p.origin, d⟩ := by
  rw [h.toMaster, List.mem_append] at hq
  refine hq.imp id fun hq => ?_
  cases b with
  | none => simp at hq
  | some d => exact ⟨d, rfl, by simpa using hq⟩

/-- A pending read looks only at cells of clean bytes. -/
theorem read_content (h : Data M s k) (ht : Turns s k) (hissued : Issued M s.requests)
    (hj : s.master.jobs[j]? = some job) (hc : job.completed = false) (hop : job.req.op = .read)
    (hg : g ∈ job.segments M) (r : MirrorRole) :
    ((s.files (roleMinion g r)).content.drop g.localOffset).take g.length =
      readBytes (contents (s.requests.take j)) (job.req.offset.toNat + g.bufferOffset) g.length := by
  obtain ⟨hcar, hclean⟩ := hissued.job hj
  obtain rfl := ht.pending hj hc
  refine content_of_cells hcar.1 hg fun a ha => ?_
  obtain ⟨hmin, hcov, -⟩ := locate_of_holds hcar.1 hg ha r
  rw [hmin]
  refine h.settled a (lt_driveSize_of_covers hcar.1 hcov) r (fun l job₁ hl hc₁ hop₁ => ?_)
    (hclean hop a (by rw [List.mem_range'_1]; exact hcov))
  -- the pending request is this read
  obtain rfl := ht.pending hl hc₁
  obtain rfl := Option.some.inj (hj.symm.trans hl)
  rw [hop] at hop₁
  cases hop₁

/-- What a cell holds after the store of a segment. -/
theorem cell_of_write (hserves : ∀ m, (s.files m).Serves M.mbMinion) (hcar : Carried M job.req)
    (hop : job.req.op = .write) (hg : g ∈ job.segments M) {r q : MirrorRole}
    (hf : s'.files = Function.update s.files (roleMinion g q) f)
    (hcontent : f.content = writeAt 0 (s.files (roleMinion g q)).content g.localOffset
      (slice job.req.data g)) {a : ℕ} (ha : a < M.getDriveSize)
    (hnot : ¬ TouchesNeighbour M job.req a) :
    (Holds job.req g a ∧
        s'.cell M r a = some (job.req.data.getD (a - job.req.offset.toNat) 0)) ∨
      s'.cell M r a = s.cell M r a ∧ (Holds job.req g a → r ≠ q) := by
  have hlen : (slice job.req.data g).length = g.length :=
    slice_length_of_mem hcar.1 (by rw [job.req.data_length, if_pos hop]) hg
  have hfits := (MinionManager.segments_mem hcar.1 hg).1.fits
  by_cases hm : M.minionOf r a = roleMinion g q
  · have hle : g.localOffset ≤ (s.files (roleMinion g q)).content.length := by
      rw [(hserves _).length_eq]
      omega
    have hget : f.content[a % M.mbMinion]? = _ :=
      hcontent ▸ getElem?_writeAt hle (a % M.mbMinion)
    rw [hlen] at hget
    by_cases hin : g.localOffset ≤ a % M.mbMinion ∧ a % M.mbMinion < g.localOffset + g.length
    · have hholds := (covered_of_cell hcar.1 hg ha hm hin.1 hin.2).resolve_right hnot
      refine .inl ⟨hholds, ?_⟩
      obtain ⟨-, hcov, hoff⟩ := locate_of_holds hcar.1 hg hholds r
      have hlt : a - job.req.offset.toNat < job.req.data.length := by
        rw [job.req.data_length, if_pos hop]
        have := hcov.1
        have := hcov.2
        omega
      rw [Sys.cell, hf, hm, Function.update_self, hget, if_pos hin, slice,
        getElem?_take_drop (by omega),
        show g.bufferOffset + (a % M.mbMinion - g.localOffset) = a - job.req.offset.toNat by
          have := hholds.1
          omega, List.getElem?_eq_getElem hlt, List.getD_eq_getElem?_getD,
        List.getElem?_eq_getElem hlt, Option.getD_some]
    · refine .inr ⟨?_, fun hholds => ?_⟩
      · rw [Sys.cell, Sys.cell, hf, hm, Function.update_self, hget, if_neg hin]
      · obtain ⟨-, -, hoff⟩ := locate_of_holds hcar.1 hg hholds r
        have := hholds.1
        have := hholds.2
        omega
  · refine .inr ⟨by rw [Sys.cell, Sys.cell, hf, Function.update_of_ne hm], ?_⟩
    rintro hholds rfl
    exact hm (locate_of_holds hcar.1 hg hholds r).1.symm

/-- A minion executes a read: no byte changes, and the answer has the bytes of the flat
drive if the read is pending. -/
theorem executeRead_data (h : Data M s k) (ht : Turns s k) (hissued : Issued M s.requests)
    (he : Executes s s' i stack heap p f b) (htr : Tracked s.master p j n job o)
    (hg : (job.segments M)[o.segIdx]? = some g) (hmin : o.minion = roleMinion g o.role)
    (hop : job.req.op = .read) (hf : f.content = (s.files p.minion).content)
    (hserves : f.Serves M.mbMinion)
    (hb : ∃ d, b = some d ∧ ∀ stack', receive masterTypes stack' d =
      .message (.readReceive job.uid 1 (UInt64.ofNat g.length)
        (some (((s.files p.minion).content.drop g.localOffset).take g.length)))) :
    Data M s' k := by
  have hreq := requests_of_master he.master
  have hcontent : ∀ m, (s'.files m).content = (s.files m).content := fun m => by
    rw [he.files]
    exact FileManager.content_update hf m
  have hcell : ∀ r a, s'.cell M r a = s.cell M r a := fun r a => by
    rw [Sys.cell, Sys.cell, hcontent]
  constructor
  case serves =>
    rw [he.files]
    exact FileManager.serves_update h.serves hserves
  case settled =>
    intro a ha r hp hclean
    rw [he.master] at hp
    rw [hcell, hreq] at *
    exact h.settled a ha r hp hclean
  case stored =>
    intro l m job₁ o₁ g₁ a hl hc hop₁ ho hg₁ hh hnot hex
    rw [he.master] at hl
    rw [hcell]
    refine h.stored l m job₁ o₁ g₁ a hl hc hop₁ ho hg₁ hh hnot (hex.imp ?_ id)
    rintro ⟨q, hq, horig⟩
    rcases he.mem_toMaster hq with hq | ⟨d, -, rfl⟩
    · exact ⟨q, hq, horig⟩
    · -- the new answer is that of a read
      rw [htr.origin, Option.some.injEq, Prod.mk.injEq] at horig
      obtain ⟨rfl, rfl⟩ := horig
      rw [← Option.some.inj (htr.job_eq.symm.trans hl), hop] at hop₁
      cases hop₁
  case answers =>
    rw [he.master, hreq]
    intro q hq l m job₁ o₁ g₁ horig hl hc ho hg₁
    rcases he.mem_toMaster hq with hq | ⟨d, hd, rfl⟩
    · exact h.answers q hq l m job₁ o₁ g₁ horig hl hc ho hg₁
    · simp only [htr.origin, Option.some.injEq, Prod.mk.injEq] at horig
      obtain ⟨rfl, rfl⟩ := horig
      obtain rfl := Option.some.inj (htr.job_eq.symm.trans hl)
      obtain rfl := Option.some.inj (htr.op_eq.symm.trans ho)
      obtain rfl := Option.some.inj (hg.symm.trans hg₁)
      obtain ⟨d', hd', hdec⟩ := hb
      obtain rfl := Option.some.inj (hd.symm.trans hd')
      rw [htr.minion, hmin,
        read_content h ht hissued hl hc hop (List.mem_of_getElem? hg)] at hdec
      simpa only [expected, hop] using hdec
  case recorded =>
    rw [he.master, hreq]
    exact h.recorded
  case replied =>
    rw [he.master, hreq]
    exact h.replied

/-- A minion executes a write, which is pending: the cells of its bytes change and no
other byte that is still clean loses a copy. -/
theorem executeWrite_data (h : Data M s k) (ht : Turns s k) (hcar : Carried M job.req)
    (he : Executes s s' i stack heap p f b) (htr : Tracked s.master p j n job o)
    (hg : (job.segments M)[o.segIdx]? = some g) (hmin : o.minion = roleMinion g o.role)
    (hop : job.req.op = .write) (hc : job.completed = false)
    (hf : f.content = writeAt 0 (s.files p.minion).content g.localOffset (slice job.req.data g))
    (hserves : f.Serves M.mbMinion)
    (hb : ∃ d, b = some d ∧ ∀ stack', receive masterTypes stack' d =
      .message (.writeReceive job.uid 1)) : Data M s' k := by
  have hreq := requests_of_master he.master
  have hpm : p.minion = roleMinion g o.role := htr.minion.trans hmin
  have hfiles := he.files
  rw [hpm] at hf hfiles
  obtain rfl := ht.pending htr.job_eq hc
  constructor
  case serves =>
    rw [hfiles]
    exact FileManager.serves_update h.serves hserves
  case settled =>
    intro a ha r hp hclean
    rw [he.master] at hp
    rw [hreq] at *
    obtain ⟨hncov, hnot⟩ := hp j job htr.job_eq hc hop
    rcases cell_of_write (r := r) h.serves hcar hop (List.mem_of_getElem? hg) hfiles hf ha hnot
      with ⟨hholds, -⟩ | ⟨hkeep, -⟩
    · exact absurd (locate_of_holds hcar.1 (List.mem_of_getElem? hg) hholds r).2.1 hncov
    · rw [hkeep]
      exact h.settled a ha r hp hclean
  case stored =>
    intro l m job₁ o₁ g₁ a hl hc₁ hop₁ ho hg₁ hh hnot hex
    rw [he.master] at hl
    obtain rfl := ht.pending hl hc₁
    obtain rfl := Option.some.inj (htr.job_eq.symm.trans hl)
    have hcov := (locate_of_holds hcar.1 (List.mem_of_getElem? hg₁) hh o₁.role).2.1
    rcases cell_of_write (r := o₁.role) h.serves hcar hop (List.mem_of_getElem? hg) hfiles hf
      (lt_driveSize_of_covers hcar.1 hcov) hnot with ⟨-, hval⟩ | ⟨hkeep, hrole⟩
    · exact hval
    · rw [hkeep]
      refine h.stored l m job o₁ g₁ a hl hc hop ho hg₁ hh hnot (hex.imp ?_ id)
      rintro ⟨q, hq, horig⟩
      rcases he.mem_toMaster hq with hq | ⟨d, -, rfl⟩
      · exact ⟨q, hq, horig⟩
      · -- the send whose store this is
        simp only [htr.origin, Option.some.injEq, Prod.mk.injEq, true_and] at horig
        subst horig
        obtain rfl := Option.some.inj (htr.op_eq.symm.trans ho)
        obtain rfl := Option.some.inj (hg.symm.trans hg₁)
        exact absurd rfl (hrole hh)
  case answers =>
    rw [he.master, hreq]
    intro q hq l m job₁ o₁ g₁ horig hl hc₁ ho hg₁
    rcases he.mem_toMaster hq with hq | ⟨d, hd, rfl⟩
    · exact h.answers q hq l m job₁ o₁ g₁ horig hl hc₁ ho hg₁
    · simp only [htr.origin, Option.some.injEq, Prod.mk.injEq] at horig
      obtain ⟨rfl, rfl⟩ := horig
      obtain rfl := Option.some.inj (htr.job_eq.symm.trans hl)
      obtain ⟨d', hd', hdec⟩ := hb
      obtain rfl := Option.some.inj (hd.symm.trans hd')
      simpa only [expected, hop] using hdec
  case recorded =>
    rw [he.master, hreq]
    exact h.recorded
  case replied =>
    rw [he.master, hreq]
    exact h.replied

/-- A datagram that is executed is that of a read, or of a write that is pending. -/
theorem execute_data (h : Data M s k) (hn : Net M s) (hs : Slots s) (ht : Turns s k)
    (hissued : Issued M s.requests) (he : Executes s s' i stack heap p f b) : Data M s' k := by
  obtain ⟨j, n, job, o, htr, hr⟩ := hn.requests p (List.mem_of_getElem? he.packet)
  obtain ⟨g, hg, hmin, hmsg⟩ := (hn.planned j job htr.job_eq).segment htr.op_eq
  have hcar := (hissued.job htr.job_eq).1
  cases hop : job.req.op with
  | read =>
    obtain ⟨hf, hserves, hb⟩ := served_read (h.serves _) hcar hop (List.mem_of_getElem? hg) hmsg hr
      he.served
    exact executeRead_data h ht hissued he htr hg hmin hop hf hserves hb
  | write =>
    have hc : job.completed = false := by
      by_contra hne
      refine (hs.written j job htr.job_eq hop (by simpa using hne)).2 n
        ⟨p, List.mem_append_left _ (List.mem_of_getElem? he.packet), htr.origin⟩
    obtain ⟨hf, hserves, hb⟩ := served_write (h.serves _) hcar hop (List.mem_of_getElem? hg) hmsg hr
      he.served
    exact executeWrite_data h ht hcar he htr hg hmin hop hc hf hserves hb

end Execute

end IoTDrive.System
