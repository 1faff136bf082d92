import IoTDrive.Pool.Tally

/-! Worker accounting. Shrinking only queues end tasks and growing recycles ids, both may be
repeated before the earlier one took effect; still the workers that stay are the
size of the pool and one for each end task that waits. -/

namespace IoTDrive.Pool

open Lib

namespace Tally

/-- The books of the pool: of its workers, and of the pause tasks of the `Pause` in
progress. -/
structure Accounted (t : Tally) : Prop where
  workers : t.live + t.ctl.spawns = t.ctl.goal t.total + t.ends + t.ctl.stops
  pauses : t.pauses + t.held + t.sem + t.ctl.acquired = t.ctl.pushed t.total
  places : t.waiting + t.unstarted + t.held ≤ t.live
  bound : ∀ i, t.ctl = .pausing i → i ≤ t.total
  paused : t.ctl.inPause = true → t.paused = true

variable {t t' : Tally} {e : Event}

/-- Outside of `Pause` no pause task is around and no release is left. -/
theorem Accounted.no_pauses (h : t.Accounted) (hctl : t.ctl.inPause = false) :
    t.held = 0 ∧ t.sem = 0 := by
  have hp := h.pauses
  cases hc : t.ctl <;> simp_all [Ctl.acquired, Ctl.pushed, Ctl.inPause]

theorem Accounted.pop {i k : ℕ} (h : t.Accounted) (hm : t.Move (.pop i k) t') : t'.Accounted := by
  obtain ⟨hw, hp, hpl, hb, hpa⟩ := h
  cases hm with
  | popUser _ _ hroom =>
    simp only [Room] at hroom
    exact ⟨hw, hp, by simp only; omega, hb, hpa⟩
  | popPause _ _ hroom hpos =>
    simp only [Room] at hroom
    exact ⟨hw, by simp only; omega, by simp only; omega, hb, hpa⟩
  | popEnd _ _ hroom hpos =>
    simp only [Room] at hroom
    exact ⟨by simp only; omega, hp, by simp only; omega, hb, hpa⟩

theorem Accounted.advance {i : ℕ} (h : t.Accounted) (hm : t.Move (.advance i) t') :
    t'.Accounted := by
  obtain ⟨hw, hp, hpl, hb, hpa⟩ := h
  cases hm with
  | goesOn => exact ⟨hw, hp, hpl, hb, hpa⟩
  | _ => exact ⟨hw, by simp only; omega, by simp only; omega, hb, hpa⟩

theorem Accounted.control {now : ℕ} (h : t.Accounted) (hm : t.Move (.control now) t') :
    t'.Accounted := by
  obtain ⟨hw, hp, hpl, hb, hpa⟩ := h
  cases hm <;> constructor <;>
    simp_all [Ctl.spawns, Ctl.goal, Ctl.stops, Ctl.acquired, Ctl.pushed, Ctl.inPause] <;> omega

theorem Accounted.call {c : Call} (h : t.Accounted) (hm : t.Move (.call c) t') :
    t'.Accounted := by
  obtain ⟨hw, hp, hpl, hb, hpa⟩ := h
  cases hm <;> constructor <;>
    simp_all [Ctl.spawns, Ctl.goal, Ctl.stops, Ctl.acquired, Ctl.pushed, Ctl.inPause] <;> omega

theorem Accounted.move (h : t.Accounted) (hm : t.Move e t') : t'.Accounted := by
  cases e with
  | call c => exact h.call hm
  | control now => exact h.control hm
  | pop i k => exact h.pop hm
  | advance i => exact h.advance hm

end Tally

variable {guard : State → Event → Prop} [∀ s e, Decidable (guard s e)] {n : ℕ} {es : List Event}
  {s : State}

theorem threadPool_accounted (n : ℕ) : (threadPool n).tally.Accounted := by
  constructor <;> simp [threadPool, State.tally, State.live, State.ends, State.pauses, State.held,
    State.waiting, State.unstarted, Ctl.spawns, Ctl.goal, Ctl.stops, Ctl.acquired, Ctl.pushed,
    Ctl.inPause]

/-- The books balance in every state that the pool reaches. -/
theorem run_accounted (hrun : run step guard es (threadPool n) = some s) :
    s.Ordered ∧ s.tally.Accounted := by
  refine run_invariant (P := fun s => s.Ordered ∧ s.tally.Accounted) (fun s e s' _ hst h => ?_) hrun
    ⟨threadPool_ordered n, threadPool_accounted n⟩
  exact ⟨step_ordered hst h.1, h.2.move (step_tally hst h.1)⟩

/-- What holds between two calls. -/
structure State.Settled (s : State) : Prop where
  workers : s.live = s.totalThreads + s.ends
  once : s.deletedThreads.Nodup
  deleted : ∀ id ∈ s.deletedThreads, ∃ i w, s.threads id = some i ∧ s.workers[i]? = some w ∧
    w.tid = id ∧ w.phase.inLoop = false
  distinct : ∀ (i j : ℕ) (v w : Worker), s.workers[i]? = some v → s.workers[j]? = some w →
    v.phase.inLoop = true → w.phase.inLoop = true → v.tid = w.tid → i = j

theorem Phase.inLoop_of_finished {p : Phase} (h : p.finished = true) : p.inLoop = false := by
  cases p <;> simp_all [finished, inLoop]

theorem Phase.finished_of_inLoop {p : Phase} (h : p.inLoop = true) : p.finished = false := by
  cases p <;> simp_all [finished, inLoop]

theorem State.Ordered.settled (h : s.Ordered) (ha : s.tally.Accounted) (hctl : s.ctl = .idle) :
    s.Settled := by
  constructor
  case workers =>
    simpa [State.tally, hctl, Ctl.spawns, Ctl.goal, Ctl.stops] using ha.workers
  case once => exact h.registered.nodup
  case deleted =>
    intro id hid
    obtain ⟨i, w, hi, hw, hf⟩ := h.registered.deleted id hid
    obtain ⟨w', hw', htid⟩ := h.registered.owner id i hi
    obtain rfl := Option.some.inj (hw.symm.trans hw')
    exact ⟨i, w, hi, hw, htid, Phase.inLoop_of_finished hf⟩
  case distinct =>
    intro i j v w hv hw hvl hwl htid
    have hi := h.registered.threads_eq hv (Phase.finished_of_inLoop hvl)
    have hj := h.registered.threads_eq hw (Phase.finished_of_inLoop hwl)
    rw [htid, hj] at hi
    exact (Option.some.inj hi).symm

/-- Worker accounting, between the calls and inside `AddThreadsToPool`: `m_threads.at` does
not throw and `m_deleted_threads.Pop` does not block. -/
theorem run_settled (hrun : run step (fun _ _ => True) es (threadPool n) = some s) :
    (s.ctl = .idle → s.Settled) ∧ s.ctl ≠ .threw ∧
      ∀ left target now, s.ctl = .popping left target → (step s (.control now)).isSome := by
  obtain ⟨ho, ha⟩ := run_accounted hrun
  refine ⟨ho.settled ha, fun hctl => ?_, fun left target now hctl => ?_⟩
  · simpa [State.CtlReady, hctl] using ho.ready
  · have hne : s.deletedThreads ≠ [] ∧ 0 < left := by simpa [State.CtlReady, hctl] using ho.ready
    obtain ⟨id, rest, hdel⟩ := List.exists_cons_of_ne_nil hne.1
    simp [step, State.control, hctl, hdel]

/-- Two workers are told to end and one has done so. -/
def halfEnded : List Event :=
  [.control 0, .control 0, .control 0, .control 0, .call (.setNumThreads 0), .control 1,
    .control 2, .control 3, .pop 1 1, .advance 1, .advance 1]

theorem run_settled_halfEnded : ∃ s, run step (fun _ _ => True) halfEnded (threadPool 2) = some s ∧
    s.deletedThreads = [1] ∧ s.Settled := by
  have hrun : (run step (fun _ _ => True) halfEnded (threadPool 2)).map
      (fun s => (s.deletedThreads, s.ctl)) = some ([1], .idle) := by decide +kernel
  obtain ⟨s, hs, heq⟩ := Option.map_eq_some_iff.mp hrun
  simp only [Prod.mk.injEq] at heq
  exact ⟨s, hs, heq.1, (run_settled hs).1 heq.2⟩

end IoTDrive.Pool
