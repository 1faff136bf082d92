import IoTDrive.System.WriteJournal

/-! Concurrent writes to one chunk. The writes may be outstanding at the same time, and
nothing in the drive orders them: each of the two minions executes them as they
arrive. A reply says that both mirrors have applied the write, so when everything is
replied both minions have executed the same blocks. The mirrors are equal if they
have also executed overlapping blocks in the same order, and need not be otherwise. -/

namespace IoTDrive.System

open Lib Message Minion Stripe Master Drive

variable {M : MinionManager} {s s' : Sys} {c : ℕ}

theorem init_writes (M : MinionManager) (c : ℕ) : Writes M c (Sys.init M) where
  net := init_net M
  uids := init_uidsDistinct M
  registered := by simp [Registered, Sys.init, MasterState.init, MinionProxy.empty]
  requests := by simp [Sys.requests, Sys.init, MasterState.init, MasterState.history]

theorem init_journal (M : MinionManager) : Journal M (Sys.init M) where
  serves m := FileManager.init_serves _ M.mb_pos
  content m := by simp [Sys.init, FileManager.init_eq, Sys.writesAt, replay]
  nodup := by simp [Sys.init, Sys.writesAt]
  source := by simp [Sys.init, Sys.writesAt]
  fresh := by simp [Sys.init]
  done := by simp [Sys.init, MasterState.init]

theorem step_journal (hN : 2 ≤ M.numMinions) {a : Action} (hg : Concurrent M c s a)
    (hst : Sys.step M s a = some s') (hw : Writes M c s) (h : Journal M s) : Journal M s' := by
  cases a with
  | getTaskArgs req uid =>
    obtain rfl := Option.some.inj hst
    exact getTaskArgs_journal h hw.net
  | advance j sendOk beyond =>
    obtain ⟨⟨master, pk⟩, hr, rfl⟩ := Option.map_eq_some_iff.mp hst
    obtain ⟨job, job', hj, hadv⟩ := MasterState.advance_cases hr
    exact advance_journal h hw hN hj hadv
  | execute i stack heap =>
    obtain ⟨p, f, b, he⟩ := execute_cases hst
    exact execute_journal h hw hN he
  | answer i stack =>
    obtain ⟨q, k, n, job, o, reply, t, hd⟩ := answer_cases hw.net hst
    exact answer_journal h hw.net hd
  | _ => exact hg.elim

/-- Both minions have executed a write that has been replied. -/
theorem Journal.replied_mem (h : Journal M s) (hw : Writes M c s) (hres : Resolved s) {j : ℕ}
    {job : Job} (hj : s.master.jobs[j]? = some job) (hc : job.completed = true) :
    blockOf M job ∈ s.writesAt c ∧
      blockOf M job ∈ s.writesAt (getBackupIndex c M.numMinions) := by
  obtain ⟨t, ht, hcomp⟩ := Option.any_eq_true _ _ |>.mp hc
  have hplan := hw.net.planned j job hj
  have hop : t.op = .write :=
    ((hw.net.master.sound j job hj).ticket_eq t ht).2.1.trans (hw.job hj).1
  have hseg : (job.segments M)[0]? = some ⟨job.req.offset.toNat % M.mbMinion,
      job.req.length.toNat, 0, c, getBackupIndex c M.numMinions⟩ := by
    rw [hw.segments hj]
    rfl
  have hmem : ∀ r, blockOf M job ∈ s.writesAt (roleMinion ⟨job.req.offset.toNat % M.mbMinion,
      job.req.length.toNat, 0, c, getBackupIndex c M.numMinions⟩ r) := by
    intro r
    obtain ⟨m, o, hm, -, -, hmin⟩ := hplan.send (by simp [ht]) hseg r
    rw [← hmin]
    exact h.done j m job o hj hm
      (.inr (slotDone_of_resolved hplan ht hop (hres j job t hj ht hcomp) hm))
  exact ⟨hmem .primary, hmem .backup⟩

/-- Two minions that have executed all writes of the chunk, each once. -/
theorem Journal.perm (h : Journal M s) (hw : Writes M c s) (hres : Resolved s)
    (hall : ∀ job ∈ s.master.jobs, job.completed = true) :
    (s.writesAt c).Perm (s.writesAt (getBackupIndex c M.numMinions)) := by
  have hrep : ∀ {m : ℕ} {b : Block UID UInt8}, b ∈ s.writesAt m →
      b ∈ s.writesAt c ∧ b ∈ s.writesAt (getBackupIndex c M.numMinions) := by
    intro m b hb
    obtain ⟨j, job, -, -, hj, -, -, -, rfl⟩ := h.source m b hb
    exact h.replied_mem hw hres hj (hall job (List.mem_of_getElem? hj))
  exact (List.perm_ext_iff_of_nodup (h.nodup _).of_map (h.nodup _).of_map).mpr fun b =>
    ⟨fun hb => (hrep hb).2, fun hb => (hrep hb).1⟩

/-- Writes inside one chunk of a drive with two or more minions, outstanding at the same
time and executed in any order: when all are replied, and overlapping ones were
executed in the same order at both minions, the two mirrors hold the same bytes. -/
theorem mirrors_converge (M : MinionManager) (c : ℕ) (as : List Action) (s : Sys)
    (hN : 2 ≤ M.numMinions) (h : run (Sys.step M) (Concurrent M c) as (Sys.init M) = some s)
    (hall : ∀ job ∈ s.master.jobs, job.completed = true) (horder : SameOrder M c s) :
    (s.files c).content = (s.files (getBackupIndex c M.numMinions)).content := by
  have hinv : Writes M c s ∧ Resolved s ∧ Journal M s := by
    refine run_invariant (P := fun s => Writes M c s ∧ Resolved s ∧ Journal M s) ?_ h
      ⟨init_writes M c, by simp [Resolved, Sys.init, MasterState.init], init_journal M⟩
    rintro s a s' hg hst ⟨hw, hr, hj⟩
    exact ⟨step_writes hN hg hst hw, hw.net.step_resolved hst hr, step_journal hN hg hst hw hj⟩
  obtain ⟨hw, hres, hj⟩ := hinv
  rw [hj.content, hj.content]
  refine replay_eq_of_same_order (hj.perm hw hres hall) (hj.nodup _).of_map (fun b hb => ?_) horder
  obtain ⟨l, job, -, -, hl, -, -, -, rfl⟩ := hj.source c b hb
  obtain ⟨hop, -, -, hone⟩ := hw.job hl
  simpa [blockOf, job.req.data_length, hop] using hone.2

/-- Two writes to the first byte, both sent before anything is executed. Minion 0 executes
them in the order of `primary`, minion 1 in the order of `backup`. -/
def twoWrites (primary backup : List ℕ) : List Action :=
  let idle := fun _ : ℕ => (0 : UInt8)
  [.getTaskArgs (byteWrite 1 0 5) 1, .getTaskArgs (byteWrite 2 0 7) 2] ++
    List.replicate 5 (.advance 0 true idle) ++ List.replicate 5 (.advance 1 true idle) ++
    (primary ++ backup).map (fun i => .execute i idle idle) ++
    List.replicate 4 (.answer 0 idle)

theorem mirrors_converge_twoWrites :
    ∃ s, run (Sys.step MinionManager.smallDrive) (Concurrent MinionManager.smallDrive 0)
        (twoWrites [0, 1] [0, 0]) (Sys.init MinionManager.smallDrive) = some s ∧
      (∀ job ∈ s.master.jobs, job.completed = true) ∧ SameOrder MinionManager.smallDrive 0 s ∧
      (s.files 0).content = (s.files 1).content := by
  have hrun : (run (Sys.step MinionManager.smallDrive) (Concurrent MinionManager.smallDrive 0)
      (twoWrites [0, 1] [0, 0]) (Sys.init MinionManager.smallDrive)).map (fun s =>
        (decide (∀ job ∈ s.master.jobs, job.completed = true),
          decide (s.writesAt 0 = s.writesAt 1))) = some (true, true) := by decide +kernel
  obtain ⟨s, hs, he⟩ := Option.map_eq_some_iff.mp hrun
  simp only [Prod.mk.injEq, decide_eq_true_eq] at he
  have horder : SameOrder MinionManager.smallDrive 0 s := fun b b' _ hsub => by
    rw [he.2] at hsub
    exact hsub
  exact ⟨s, hs, he.1, horder, mirrors_converge MinionManager.smallDrive 0 (twoWrites [0, 1] [0, 0])
    s (by decide) hs he.1 horder⟩

/-- The minions execute the two writes in opposite orders; both are replied with success. -/
theorem crossed_writes_diverge :
    ∃ s, run (Sys.step MinionManager.smallDrive) (Concurrent MinionManager.smallDrive 0)
        (twoWrites [0, 1] [1, 0]) (Sys.init MinionManager.smallDrive) = some s ∧
      (∀ job ∈ s.master.jobs, job.completed = true) ∧
      s.master.nbdOut = (NbdReply.header ⟨0, [0, 0, 0, 0, 0, 0, 0, 2]⟩ ++
        NbdReply.header ⟨0, [0, 0, 0, 0, 0, 0, 0, 1]⟩).map some ∧
      (s.files 0).content = [7, 0, 0, 0] ∧ (s.files 1).content = [5, 0, 0, 0] := by
  have hrun : (run (Sys.step MinionManager.smallDrive) (Concurrent MinionManager.smallDrive 0)
      (twoWrites [0, 1] [1, 0]) (Sys.init MinionManager.smallDrive)).map (fun s =>
        (decide (∀ job ∈ s.master.jobs, job.completed = true), s.master.nbdOut,
          (s.files 0).content, (s.files 1).content)) =
      some (true, (NbdReply.header ⟨0, [0, 0, 0, 0, 0, 0, 0, 2]⟩ ++
        NbdReply.header ⟨0, [0, 0, 0, 0, 0, 0, 0, 1]⟩).map some, [7, 0, 0, 0], [5, 0, 0, 0]) := by
    decide +kernel
  obtain ⟨s, hs, he⟩ := Option.map_eq_some_iff.mp hrun
  simp only [Prod.mk.injEq, decide_eq_true_eq] at he
  exact ⟨s, hs, he⟩

end IoTDrive.System
