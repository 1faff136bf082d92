import IoTDrive.Pool.Accounting
import Mathlib.Data.Finset.Max
import Mathlib.Data.Prod.Lex

/-! Progress of the pool. `Pause` pushes one pause task for each worker of the pool and waits
until all of them have been begun, but a worker that is still inside an earlier pause task
takes none: a second `Pause` before such a worker has left blocks for ever, and so does the
destructor of a paused pool. Where no call is made at such a moment, the controlling thread
never waits for workers none of which can take a step. -/

namespace IoTDrive.Pool

open Lib

/-- Where the controlling thread waits for its workers: the acquisition of `Pause` and the
joins. -/
def Ctl.waits : Ctl → Bool
  | acquiring _ | joining _ _ _ | discarding _ _ _ | joinAll => true
  | _ => false

namespace State

/-- The controlling thread is blocked in `Pause` or in a join, and no worker can take a
step. -/
structure Stuck (s : State) : Prop where
  waits : s.ctl.waits = true
  blocked : ∀ now, step s (.control now) = none
  noPop : ∀ i k, step s (.pop i k) = none
  noAdvance : ∀ i, step s (.advance i) = none

end State

/-- No `Pause` while a worker is inside an earlier pause task, and no destruction of a paused
pool with such a worker. -/
def Timely (s : State) : Event → Prop
  | .call .pause => s.totalThreads = 0 ∨ s.waiting = 0
  | .call .destroy => s.paused = false ∨ s.waiting = 0
  | _ => True

instance (s : State) : ∀ e, Decidable (Timely s e)
  | .call .pause | .call .destroy => inferInstanceAs (Decidable (_ ∨ _))
  | .call (.addTask _ _ _) | .call .resume | .call (.setNumThreads _) => isTrue trivial
  | .control _ | .pop _ _ | .advance _ => isTrue trivial

/-! ### A worker that can go on -/

variable {s s' : State} {e : Event} {i : ℕ} {w : Worker}

/-- `std::priority_queue` has a top unless it is empty. -/
theorem exists_top {pq : List TPTask} (hne : pq ≠ []) :
    ∃ (k : ℕ) (t : TPTask), pq[k]? = some t ∧ ∀ u ∈ pq, ¬ t.Less u := by
  obtain ⟨t, ht, hmax⟩ := Multiset.exists_max_image
    (fun t : TPTask => toLex (t.priority.value, t.timeCreated)) (s := (pq : Multiset TPTask))
    (by simpa using hne)
  obtain ⟨k, hk⟩ := List.getElem?_of_mem (Multiset.mem_coe.mp ht)
  refine ⟨k, t, hk, fun u hu hless => ?_⟩
  have hle := hmax u (Multiset.mem_coe.mpr hu)
  rw [Prod.Lex.toLex_le_toLex] at hle
  rcases hless with ⟨htime, hprio⟩ | hprio
  · rw [hprio] at hle
    omega
  · omega

namespace State

/-- Where a worker is that cannot go on. -/
theorem phase_of_noAdvance (h : step s (.advance i) = none) (hw : s.workers[i]? = some w) :
    w.phase = .loop ∨ w.phase = .waiting false ∨ w.phase = .exited := by
  simp only [step, advance, hw] at h
  split at h <;> simp_all

/-- A worker that waits in `Pop` means an empty queue. -/
theorem pq_eq_nil_of_noPop (h : ∀ k, step s (.pop i k) = none) (hw : s.workers[i]? = some w)
    (hp : w.phase = .loop) : s.pq = [] := by
  by_contra hne
  obtain ⟨k, t, ht, htop⟩ := exists_top hne
  have hno := h k
  simp [step, pop, hw, ht, hp] at hno
  obtain ⟨u, hu, hless⟩ := hno
  exact htop u hu hless

theorem Stuck.phase (h : s.Stuck) (hw : s.workers[i]? = some w) :
    w.phase = .loop ∨ w.phase = .waiting false ∨ w.phase = .exited :=
  phase_of_noAdvance (h.noAdvance i) hw

theorem Stuck.pq_eq_nil (h : s.Stuck) (hw : s.workers[i]? = some w) (hp : w.phase = .loop) :
    s.pq = [] := pq_eq_nil_of_noPop (h.noPop i) hw hp

theorem pq_ne_nil {f : TPTask → Bool} (h : 0 < s.pq.countP f) : s.pq ≠ [] := by
  rintro hnil
  simp [hnil] at h

/-- With a task in the queue, every worker that stays is inside a pause task. -/
theorem Stuck.live_le_waiting (h : s.Stuck) (hne : s.pq ≠ []) : s.live ≤ s.waiting := by
  refine List.countP_mono_left fun w hmem hlive => ?_
  obtain ⟨i, hw⟩ := List.getElem?_of_mem hmem
  rcases h.phase hw with hp | hp | hp
  · exact absurd (h.pq_eq_nil hw hp) hne
  · simp [hp, Phase.isWaiting]
  · simp [hp, Phase.live] at hlive

theorem Stuck.held_eq_zero (h : s.Stuck) : s.held = 0 := by
  refine List.countP_eq_zero.mpr fun w hmem => ?_
  obtain ⟨i, hw⟩ := List.getElem?_of_mem hmem
  rcases h.phase hw with hp | hp | hp <;> simp [hp, Phase.holdsPause]

/-- Of a pool that is not paused, every worker inside a pause task has been notified. -/
def Notified (s : State) : Prop := s.paused = false → ∀ w ∈ s.workers, w.phase ≠ .waiting false

end State

theorem step_notified (hst : step s e = some s') (h : s.Notified) : s'.Notified := by
  intro hpf w hmem
  cases step_workersAfter hst with
  | same hs hp => exact h (hp hpf) w (hs ▸ hmem)
  | spawn id hs hp =>
    rw [hs] at hmem
    rcases List.mem_append.mp hmem with hmem | hmem
    · exact h (hp ▸ hpf) w hmem
    · simp [List.mem_singleton.mp hmem]
  | move i v p hv hs hp hsleep hbegin =>
    rw [hp] at hpf
    obtain ⟨j, hw⟩ := List.getElem?_of_mem hmem
    rw [hs, State.setPhase_getElem? hv] at hw
    split_ifs at hw with hij
    · obtain rfl := Option.some.inj hw
      exact fun hsl => absurd (hsleep hsl) (by simp [hpf])
    · exact h hpf w (List.mem_of_getElem? hw)
  | resume hs =>
    subst hs
    obtain ⟨v, -, rfl⟩ := List.mem_map.mp hmem
    cases v.phase <;> simp [Phase.notify]

/-! ### Runs -/

namespace Tally

/-- The destructor runs. -/
def leaving (t : Tally) : Prop :=
  match t.ctl with
  | .destroying _ | .joinAll | .destroyed => True
  | _ => False

/-- The workers inside a pause task are those that the `Pause` in progress has put there, and
none is there for ever when the pool is destroyed. -/
structure Prompt (t : Tally) : Prop where
  pause : t.ctl.inPause = true → t.total = 0 ∨ t.waiting = t.sem + t.ctl.acquired
  leave : t.leaving → t.paused = false ∨ t.waiting = 0

variable {t t' : Tally}

theorem not_inPause_of_leaving (h : t.leaving) : t.ctl.inPause = false := by
  unfold leaving at h
  split at h <;> simp_all [Ctl.inPause]

theorem Prompt.advance {i : ℕ} (h : t.Prompt) (ha : t.Accounted) (hm : t.Move (.advance i) t') :
    t'.Prompt := by
  obtain ⟨h1, h2⟩ := h
  have hheld := fun hl => (ha.no_pauses (not_inPause_of_leaving hl)).1
  cases hm with
  | parks _ hpos hp => exact ⟨fun hin => (h1 hin).imp_right fun _ => by simp only; omega,
      fun hl => absurd (hheld hl) (by omega)⟩
  | passes _ hpos hp =>
    refine ⟨fun hin => absurd (ha.paused hin) (by simp [hp]), fun hl => absurd (hheld hl) (by omega)⟩
  | wakes _ hpos hp =>
    exact ⟨fun hin => absurd (ha.paused hin) (by simp [hp]), fun _ => .inl hp⟩
  | _ => exact ⟨h1, h2⟩

theorem Prompt.control {now : ℕ} (h : t.Prompt) (hm : t.Move (.control now) t') : t'.Prompt := by
  obtain ⟨h1, h2⟩ := h
  cases hm with
  | acquire _ i hctl hi hsem =>
    refine ⟨fun _ => (h1 (by simp [hctl, Ctl.inPause])).imp_right fun hw => ?_, fun hl => hl.elim⟩
    simp only [hctl, Ctl.acquired] at hw ⊢
    omega
  | pushPause _ i hctl | pushed _ i hctl =>
    refine ⟨fun _ => (h1 (by simp [hctl, Ctl.inPause])).imp_right fun hw => ?_, fun hl => hl.elim⟩
    simpa only [hctl, Ctl.acquired] using hw
  | pushLast _ _ hctl | pushedLast _ hctl | allJoined _ hctl =>
    exact ⟨by simp [Ctl.inPause], fun _ => h2 (by simp [leaving, hctl])⟩
  | _ => exact ⟨by simp [Ctl.inPause], fun hl => hl.elim⟩

end Tally

theorem step_prompt (hst : step s e = some s') (hg : Timely s e) (ho : s.Ordered)
    (ha : s.tally.Accounted) (h : s.tally.Prompt) : s'.tally.Prompt := by
  have hm := step_tally hst ho
  cases e with
  | pop i k =>
    generalize s'.tally = t' at hm
    cases hm with
    | _ => exact ⟨h.pause, h.leave⟩
  | advance i => exact h.advance ha hm
  | control now => exact h.control hm
  | call c =>
    generalize s'.tally = t' at hm
    cases hm with
    | addTask => exact h
    | pause hctl =>
      refine ⟨fun _ => hg.imp_right fun hw => ?_, fun hl => hl.elim⟩
      simp only [Ctl.acquired, (ha.no_pauses (by simp [hctl, Ctl.inPause])).2]
      exact hw
    | destroy hctl => exact ⟨by simp [Ctl.inPause], fun _ => hg⟩
    | resume hctl => exact ⟨by simp [hctl, Ctl.inPause], fun hl => .inl rfl⟩
    | grow | shrink => exact ⟨by simp [Ctl.inPause], fun hl => hl.elim⟩

namespace State

variable {now : ℕ}

/-- A `Pause` that has begun on workers none of which was inside a pause task gets all its
acquisitions. -/
theorem Stuck.not_acquiring (h : s.Stuck) (ha : s.tally.Accounted) (hp : s.tally.Prompt)
    (hctl : s.ctl = .acquiring i) : False := by
  have hno := h.blocked 0
  simp only [step, control, hctl] at hno
  split_ifs at hno with hi hsem
  have hheld := h.held_eq_zero
  have hpauses := ha.pauses
  have hworkers := ha.workers
  have hwaiting := hp.pause (by simp [tally, hctl, Ctl.inPause])
  simp only [tally, hctl, Ctl.acquired, Ctl.pushed, Ctl.spawns, Ctl.goal, Ctl.stops]
    at hpauses hworkers hwaiting
  have hpos : 0 < s.pauses := by omega
  have hle := h.live_le_waiting (pq_ne_nil hpos)
  omega

/-- A thread that is replaced has reported its id, so it exits. -/
theorem Stuck.not_joining (h : s.Stuck) (ho : s.Ordered) {j left target : ℕ}
    (hctl : s.ctl = .joining j left target) : False := by
  obtain ⟨w, hw, hf⟩ : ∃ w, s.workers[j]? = some w ∧ w.phase.finished := by
    simpa [CtlReady, hctl] using ho.ready
  have hno := h.blocked 0
  simp only [step, control, hctl, Joined, hw] at hno
  rcases h.phase hw with hp | hp | hp
  · simp [hp, Phase.finished] at hf
  · simp [hp, Phase.finished] at hf
  · simp [hp] at hno

/-- The destructor of a pool none of whose workers stays inside a pause task joins them
all. -/
theorem Stuck.not_joinAll (h : s.Stuck) (ha : s.tally.Accounted) (hp : s.tally.Prompt)
    (hn : s.Notified) (hctl : s.ctl = .joinAll) : False := by
  have hno := h.blocked 0
  simp only [step, control, hctl] at hno
  split_ifs at hno with hj
  apply hj
  rintro ⟨w, i⟩ hmem -
  have hw : s.workers[i]? = some w := List.mem_zipIdx_iff_getElem?.mp hmem
  have hworkers := ha.workers
  simp only [tally, hctl, Ctl.spawns, Ctl.goal, Ctl.stops] at hworkers
  by_contra hne
  simp only at hne
  have hlive : 0 < s.live := by
    refine List.countP_pos_iff.mpr ⟨w, List.mem_of_getElem? hw, ?_⟩
    rcases h.phase hw with hph | hph | hph
    · simp [hph, Phase.live]
    · simp [hph, Phase.live]
    · exact absurd hph hne
  have hends : 0 < s.ends := by omega
  have hpq := pq_ne_nil hends
  have hwaiting : 0 < s.waiting := lt_of_lt_of_le hlive (h.live_le_waiting hpq)
  obtain ⟨v, hv, hvw⟩ := List.countP_pos_iff.mp hwaiting
  obtain ⟨j, hvj⟩ := List.getElem?_of_mem hv
  rcases hp.leave (by simp [Tally.leaving, tally, hctl]) with hpf | hz
  · rcases h.phase hvj with hph | hph | hph
    · simp [hph, Phase.isWaiting] at hvw
    · exact hn hpf v hv hph
    · simp [hph, Phase.isWaiting] at hvw
  · exact absurd hz hwaiting.ne'

end State

theorem run_timely {n : ℕ} {es : List Event}
    (hrun : run step Timely es (threadPool n) = some s) : s.Notified ∧ s.tally.Prompt := by
  have hall : s.Ordered ∧ s.tally.Accounted ∧ s.Notified ∧ s.tally.Prompt := by
    refine run_invariant (P := fun s => s.Ordered ∧ s.tally.Accounted ∧ s.Notified ∧ s.tally.Prompt)
      ?_ hrun ⟨threadPool_ordered n, threadPool_accounted n, by simp [State.Notified, threadPool],
        by simp [State.tally, threadPool, Ctl.inPause], fun hl => hl.elim⟩
    rintro s e s' hg hst ⟨ho, ha, hn, hp⟩
    exact ⟨step_ordered hst ho, ha.move (step_tally hst ho), step_notified hst hn,
      step_prompt hst hg ho ha hp⟩
  exact hall.2.2

/-- Where every `Pause` comes when no worker is inside an earlier pause task, and the pool is
not destroyed while one stays there, the pool never gets stuck. -/
theorem run_not_stuck {n : ℕ} {es : List Event}
    (hrun : run step Timely es (threadPool n) = some s) : ¬ s.Stuck := by
  obtain ⟨hn, hp⟩ := run_timely hrun
  obtain ⟨ho, ha⟩ := run_accounted hrun
  intro hstuck
  have hwaits := hstuck.waits
  cases hctl : s.ctl with
  | acquiring i => exact hstuck.not_acquiring ha hp hctl
  | joining j left target => exact hstuck.not_joining ho hctl
  | discarding j left target => simpa [State.CtlReady, hctl] using ho.ready
  | joinAll => exact hstuck.not_joinAll ha hp hn hctl
  | _ => simp [hctl, Ctl.waits] at hwaits

/-- A pool of one worker is made and paused; the controlling thread waits for the worker. -/
def pauseOnce : List Event :=
  [.control 0, .control 0, .control 0, .call .pause, .control 1, .control 2]

theorem run_not_stuck_pauseOnce : ∃ s, run step Timely pauseOnce (threadPool 1) = some s ∧
    s.ctl = .acquiring 0 ∧ ¬ s.Stuck := by
  have hrun : (run step Timely pauseOnce (threadPool 1)).map State.ctl = some (.acquiring 0) := by
    decide +kernel
  obtain ⟨s, hs, hctl⟩ := Option.map_eq_some_iff.mp hrun
  exact ⟨s, hs, hctl, run_not_stuck hs⟩

/-- The worker begins its pause task, `Pause` returns, and is called again. -/
def pauseTwice : List Event :=
  pauseOnce ++ [.pop 0 0, .advance 0, .control 3, .control 4, .call .pause, .control 5, .control 6]

theorem pauseTwice_stuck : ∃ s, run step (fun _ _ => True) pauseTwice (threadPool 1) = some s ∧
    s.Stuck := by
  have hrun : (run step (fun _ _ => True) pauseTwice (threadPool 1)).map
      (fun s => (s.ctl, s.totalThreads, s.pauseSem, s.workers)) =
      some (.acquiring 0, 1, 0, [⟨0, .waiting false⟩]) := by decide +kernel
  obtain ⟨s, hs, heq⟩ := Option.map_eq_some_iff.mp hrun
  simp only [Prod.mk.injEq] at heq
  obtain ⟨hctl, htotal, hsem, hworkers⟩ := heq
  have hphase : ∀ (i : ℕ) (w : Worker), s.workers[i]? = some w → w = ⟨0, .waiting false⟩ := by
    intro i w hw
    rw [hworkers] at hw
    exact List.mem_singleton.mp (List.mem_of_getElem? hw)
  refine ⟨s, hs, by rw [hctl]; rfl, fun now => ?_, fun i k => ?_, fun i => ?_⟩
  · simp [step, State.control, hctl, htotal, hsem]
  · rw [Option.eq_none_iff_forall_not_mem]
    intro s' hpop
    obtain ⟨w, t, hw, -, hp, -⟩ := State.pop_cases hpop
    simp [hphase i w hw] at hp
  · rw [Option.eq_none_iff_forall_not_mem]
    intro s' hadv
    obtain ⟨w, hw, ha⟩ := State.advance_cases hadv
    have hp := hphase i w hw
    cases ha <;> simp_all

end IoTDrive.Pool
