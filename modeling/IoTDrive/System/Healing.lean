import IoTDrive.System.Freshness

/-! What a replied write leaves at both of its minions. A write that fails, as the datagram to
one mirror is lost, makes the two copies of a byte differ for good: nothing in the drive
copies one mirror to the other. The next write that is replied, and that no other write of
its cells runs into, makes them equal again, and every later read shows its bytes. -/

namespace IoTDrive.System

open Lib Message Minion Stripe Master Drive

variable {M : MinionManager} {s s₀ : Sys} {w a : ℕ}

/-- Up to the state there is no other write of the cells of an address than those that were
finished at `s₀`. -/
def Alone (M : MinionManager) (s₀ s : Sys) (w a : ℕ) : Prop :=
  ∀ (k : ℕ) (other : Job), s.master.jobs[k]? = some other → k ≠ w →
    (∃ v, Supplies M other.req a v) → Finished s₀ k

/-- A write in one chunk brings one byte for the cells of each of its addresses. -/
theorem supplies_iff (hl : Local M s) {w : ℕ} {write : Job} (hw : s.master.jobs[w]? = some write)
    (hop : write.req.op = .write) {a : ℕ} (ha : Covers write.req a) {v : UInt8} :
    Supplies M write.req a v ↔ write.req.data[a - write.req.offset.toNat]? = some v := by
  refine ⟨?_, fun hv => ⟨hop, a, ha, .inl rfl, hv⟩⟩
  rintro ⟨-, b, hb, rfl | hnb, hv⟩
  · exact hv
  · -- a neighbour has the same place, but in another chunk
    have hoff := (hl.place hw ha .primary).1
    have hoff' := (hl.place hw hb .primary).1
    have hab := hnb.1
    have := ha.1
    have := hb.1
    obtain rfl : a = b := by omega
    exact hv

theorem Alone.eq (halone : Alone M s₀ s w a) (hl : Local M s) {write last : Job} {k : ℕ}
    {v : UInt8} (hw : s.master.jobs[w]? = some write) (hop : write.req.op = .write)
    (ha : Covers write.req a) (hk : s.master.jobs[k]? = some last)
    (hsup : Supplies M last.req a v) (hfresh : ¬ Finished s₀ k) :
    write.req.data[a - write.req.offset.toNat]? = some v := by
  by_cases hkw : k = w
  · subst hkw
    obtain rfl := Option.some.inj (hw.symm.trans hk)
    exact (supplies_iff hl hw hop ha).mp hsup
  · exact absurd (halone k last hk hkw ⟨v, hsup⟩) hfresh

/-- A replied write heals its cells. Let a write be issued after the moment `s₀` and be replied by
the moment `s₁`, and let the other writes of an address of it, up to the state, be finished at
`s₀`. Then both minions hold its byte, whatever they held before, and so does the reply to
every read that is issued after `s₁`. -/
theorem write_heals (M : MinionManager) (as₀ as₁ as₂ : List Action) (s₀ s₁ s : Sys)
    (hN : 2 ≤ M.numMinions) (h₀ : run (Sys.step M) (Lossy M) as₀ (Sys.init M) = some s₀)
    (h₁ : run (Sys.step M) (Lossy M) as₁ s₀ = some s₁)
    (h₂ : run (Sys.step M) (Lossy M) as₂ s₁ = some s) (w : ℕ) (write : Job)
    (hw : s₁.master.jobs[w]? = some write) (hop : write.req.op = .write)
    (hreplied : write.completed = true) (hissued : s₀.master.jobs.length ≤ w) (a : ℕ)
    (ha : Covers write.req a) (halone : Alone M s₀ s w a) :
    ∃ v, write.req.data[a - write.req.offset.toNat]? = some v ∧
      (∀ r, (s.files (M.minionOf r a)).content[a % M.mbMinion]? = some v) ∧
      ∀ (j : ℕ) (read : Job), s.master.jobs[j]? = some read → read.req.op = .read →
        read.completed = true → s₁.master.jobs.length ≤ j → Covers read.req a →
          replyByte read a = some (some v) := by
  obtain ⟨ho₀, hh₀, -⟩ := run_history hN h₀ (init_ordered M) (init_history M)
  obtain ⟨ho₁, hh₁, hsince₁⟩ := run_history hN h₁ ho₀ hh₀
  obtain ⟨ho, hh, hsince⟩ := run_history hN h₂ ho₁ hh₁.rebase
  obtain ⟨write', hw', hu, hr, hc'⟩ := hsince.keeps w write hw
  have hop' : write'.req.op = .write := hr ▸ hop
  have ha' : Covers write'.req a := hr ▸ ha
  have hlt : a - write.req.offset.toNat < write.req.data.length := by
    have := ha.1
    have := ha.2
    rw [write.req.data_length, if_pos hop]
    omega
  refine ⟨_, List.getElem?_eq_getElem hlt, fun r => ?_, fun j read hj hopr hc hlater har => ?_⟩
  · have hstored := hh.replied_mem ho hw' hop' (hc' hreplied) r
    rw [← (ho.chunks.place hw' ha' r).2] at hstored
    obtain ⟨v, hv, k, last, hk, hsup, hfresh⟩ := (hsince₁.trans hsince).shows ho hh hh₀ hw' hop'
      hissued ha' ((hsince₁.trans hsince).journal _) List.prefix_rfl hstored
    rw [hh.content, hv, ← halone.eq ho.chunks hw' hop' ha' hk hsup hfresh, hr]
    exact List.getElem?_eq_getElem hlt
  · obtain ⟨v, hv, k, last, hk, hsup, hfresh⟩ := hsince₁.read hsince hh₀ ho₁ hh₁ ho hh hw hop
      hreplied hissued hj hopr hc hlater ha har
    rw [hv, ← halone.eq ho.chunks hw' hop' ha' hk hsup hfresh, hr]
    exact congrArg some (List.getElem?_eq_getElem hlt)

/-- A write whose datagram to the backup is lost: the mirrors hold 5 and 0. -/
def torn : List Action :=
  let idle := fun _ : ℕ => (0 : UInt8)
  [.getTaskArgs (byteWrite 1 0 5) 1] ++ List.replicate 5 (.advance 0 true idle) ++
    [.loseRequest 1, .execute 0 idle idle, .answer 0 idle]

/-- A read that hears from the backup only. -/
def readBack : List Action :=
  let idle := fun _ : ℕ => (0 : UInt8)
  [.getTaskArgs (byteRead 3 0) 3] ++ List.replicate 5 (.advance 2 true idle) ++
    [.execute 0 idle idle, .execute 0 idle idle, .loseAnswer 0, .answer 0 idle]

theorem write_heals_torn :
    ∃ s₀ s read, run (Sys.step MinionManager.smallDrive) (Lossy MinionManager.smallDrive) torn
        (Sys.init MinionManager.smallDrive) = some s₀ ∧
      (s₀.files 0).content = [5, 0, 0, 0] ∧ (s₀.files 1).content = [0, 0, 0, 0] ∧
      run (Sys.step MinionManager.smallDrive) (Lossy MinionManager.smallDrive)
        (serveInOrder (byteWrite 2 0 7) 2 1 ++ readBack) s₀ = some s ∧
      s.master.jobs[2]? = some read ∧ ∃ v, (s.files 0).content[0]? = some v ∧
        (s.files 1).content[0]? = some v ∧ replyByte read 0 = some (some v) := by
  have hfirst : (run (Sys.step MinionManager.smallDrive) (Lossy MinionManager.smallDrive) torn
      (Sys.init MinionManager.smallDrive)).map (fun s =>
        (s.master.jobs.map Job.commandDone, s.toMinion ++ s.toMaster,
          (s.files 0).content, (s.files 1).content)) =
      some ([true], [], [5, 0, 0, 0], [0, 0, 0, 0]) := by decide +kernel
  have hsecond : (run (Sys.step MinionManager.smallDrive) (Lossy MinionManager.smallDrive)
      (torn ++ serveInOrder (byteWrite 2 0 7) 2 1) (Sys.init MinionManager.smallDrive)).map
        (fun s => (s.master.jobs.length, outline s 1)) =
      some (2, some (.write, true, 0, 1)) := by decide +kernel
  have hthird : (run (Sys.step MinionManager.smallDrive) (Lossy MinionManager.smallDrive)
      ((torn ++ serveInOrder (byteWrite 2 0 7) 2 1) ++ readBack)
      (Sys.init MinionManager.smallDrive)).map
        (fun s => (s.master.jobs.length, outline s 2)) =
      some (3, some (.read, true, 0, 1)) := by decide +kernel
  obtain ⟨s₀, hs₀, he₀⟩ := Option.map_eq_some_iff.mp hfirst
  obtain ⟨s₁, hs₁, he₁⟩ := Option.map_eq_some_iff.mp hsecond
  obtain ⟨s, hs, he⟩ := Option.map_eq_some_iff.mp hthird
  rw [run_append, hs₁, Option.bind_some] at hs
  rw [run_append, hs₀, Option.bind_some] at hs₁
  obtain ⟨hdone, hnet, hprimary, hbackup⟩ : s₀.master.jobs.map Job.commandDone = [true] ∧
      s₀.toMinion ++ s₀.toMaster = [] ∧ (s₀.files 0).content = [5, 0, 0, 0] ∧
        (s₀.files 1).content = [0, 0, 0, 0] := by simpa using he₀
  obtain ⟨first, hjobs, hcommand⟩ := List.map_eq_singleton_iff.mp hdone
  obtain ⟨hlen₁, hw⟩ := Prod.mk.inj he₁
  obtain ⟨hlen, hr⟩ := Prod.mk.inj he
  obtain ⟨write, hwj, hwrite⟩ := Option.map_eq_some_iff.mp hw
  obtain ⟨read, hj, hread⟩ := Option.map_eq_some_iff.mp hr
  simp only [Prod.mk.injEq] at hwrite hread
  have halone : Alone MinionManager.smallDrive s₀ s 1 0 := by
    rintro k other hk hne ⟨v, hop, -⟩
    have hlt := (List.getElem?_eq_some_iff.mp hk).1
    obtain rfl | rfl : k = 0 ∨ k = 2 := by omega
    · exact ⟨first, by simp [hjobs], .inr ⟨hcommand, by simp [hnet]⟩⟩
    · obtain rfl := Option.some.inj (hj.symm.trans hk)
      simp [hread.1] at hop
  obtain ⟨v, -, hfiles, hreads⟩ := write_heals MinionManager.smallDrive torn
    (serveInOrder (byteWrite 2 0 7) 2 1) readBack s₀ s₁ s (by decide) hs₀ hs₁ hs 1 write hwj
    hwrite.1 hwrite.2.1 (by simp [hjobs]) 0 (by simp [Covers, hwrite]) halone
  refine ⟨s₀, s, read, hs₀, hprimary, hbackup, ?_, hj, v, hfiles .primary, hfiles .backup,
    hreads 2 read hj hread.1 hread.2.1 (Nat.le_of_eq hlen₁) (by simp [Covers, hread])⟩
  rw [run_append, hs₁, Option.bind_some]
  exact hs

end IoTDrive.System
