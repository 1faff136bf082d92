import IoTDrive.Pool.Accounting

/-! A paused pool. `Pause` waits for as many workers as the pool has, so the workers that it
does not see are those that wait for an end task and those that a later growth makes.
While the pool is not grown past the workers inside a pause task, and no submitted task is
about to be begun when more end tasks wait than workers, no worker of a paused pool begins
a task. -/

namespace IoTDrive.Pool

open Lib

/-- Where a worker is. -/
def State.phaseAt (s : State) (i : ℕ) : Option Phase := s.workers[i]?.map Worker.phase

/-- In a step from one state to the other, a worker begins a submitted task. -/
def Begins (s s' : State) : Prop :=
  ∃ i id, s'.phaseAt i = some (.running id) ∧ s.phaseAt i ≠ some (.running id)

/-- No growth of a paused pool past the workers inside a pause task, and no `Pause` while a
submitted task is popped and not begun and more end tasks wait than workers are inside a
pause task. -/
def Gradual (s : State) : Event → Prop
  | .call .pause => s.unstarted = 0 ∨ s.ends ≤ s.waiting
  | .call (.setNumThreads n) => s.frozen = true → n ≤ s.waiting
  | _ => True

instance (s : State) : ∀ e, Decidable (Gradual s e)
  | .call .pause => inferInstanceAs (Decidable (_ ∨ _))
  | .call (.setNumThreads _) => inferInstanceAs (Decidable (_ → _))
  | .call (.addTask _ _ _) | .call .resume | .call .destroy => isTrue trivial
  | .control _ | .pop _ _ | .advance _ => isTrue trivial

variable {s s' : State} {e : Event}

/-- Only a worker that holds a popped task begins one. -/
theorem unstarted_pos_of_begins (hst : step s e = some s') (hb : Begins s s') :
    0 < s.unstarted := by
  obtain ⟨j, id, hnew, hold⟩ := hb
  obtain ⟨v, hv, hphase⟩ := Option.map_eq_some_iff.mp hnew
  have hnot : ∀ w, s.workers[j]? = some w → w.phase ≠ .running id := fun w hw hp =>
    hold (by simp [State.phaseAt, hw, hp])
  cases step_workersAfter hst with
  | same hs hp =>
    rw [hs] at hv
    exact absurd hphase (hnot v hv)
  | spawn tid hs hp =>
    rw [hs, State.spawn] at hv
    rcases Nat.lt_or_ge j s.workers.length with hj | hj
    · rw [List.getElem?_append_left hj] at hv
      exact absurd hphase (hnot v hv)
    · rw [List.getElem?_append_right hj] at hv
      simp [List.mem_singleton.mp (List.mem_of_getElem? hv)] at hphase
  | move i w p hw hs hp hsleep hbegin =>
    rw [hs, State.setPhase_getElem? hw] at hv
    split_ifs at hv with hij
    · obtain rfl := Option.some.inj hv
      refine List.countP_pos_iff.mpr ⟨w, List.mem_of_getElem? hw, ?_⟩
      simp [hbegin id hphase, Phase.unstarted]
    · exact absurd hphase (hnot v hv)
  | resume hs =>
    subst hs
    simp only [State.resume, List.getElem?_map] at hv
    obtain ⟨w, hw, rfl⟩ := Option.map_eq_some_iff.mp hv
    refine absurd ?_ (hnot w hw)
    cases hp : w.phase <;> simp_all [Phase.notify]

/-! ### Runs -/

namespace Tally

/-- While `Pause` runs, a worker is inside a pause task for each one begun, and a popped task
waits only when none of the other workers is left. Once it has returned, what is not
inside a pause task is matched by an end task. -/
structure Still (t : Tally) : Prop where
  pause : t.ctl.inPause = true → t.sem + t.ctl.acquired ≤ t.waiting
  popped : t.ctl.inPause = true → t.unstarted = 0 ∨ t.ends + t.sem + t.ctl.acquired ≤ t.waiting
  paused : t.frozen = true → t.paused = true
  none : t.frozen = true → t.unstarted = 0
  frozen : t.frozen = true → t.live + t.ctl.spawns ≤ t.waiting + t.ends

variable {t t' : Tally}

theorem Still.pop {i k : ℕ} (h : t.Still) (hm : t.Move (.pop i k) t') : t'.Still := by
  obtain ⟨h1, h2, h3, h4, h5⟩ := h
  cases hm with
  | popUser _ _ hroom hends hpauses =>
    -- a frozen pool has no worker left in `Pop` when no end task is queued
    simp only [Room] at hroom
    have hthaw : t.frozen ≠ true := fun hf => by
      have := h5 hf
      omega
    refine ⟨h1, fun hin => .inr ?_, h3, fun hf => absurd hf hthaw, h5⟩
    have := h1 hin
    simp only
    omega
  | popPause _ _ hroom hpos => exact ⟨h1, h2, h3, h4, h5⟩
  | popEnd _ _ hroom hpos =>
    simp only [Room] at hroom
    refine ⟨h1, fun hin => (h2 hin).imp_right fun _ => by simp only; omega, h3, h4, fun hf => ?_⟩
    have := h5 hf
    simp only
    omega

theorem Still.advance {i : ℕ} (h : t.Still) (ha : t.Accounted) (hm : t.Move (.advance i) t') :
    t'.Still := by
  obtain ⟨h1, h2, h3, h4, h5⟩ := h
  cases hm with
  | begins _ hpos =>
    refine ⟨h1, fun hin => (h2 hin).imp_left fun _ => by simp only; omega, h3, fun hf => ?_, h5⟩
    have := h4 hf
    simp only
    omega
  | parks _ hpos hp =>
    refine ⟨fun hin => ?_, fun hin => (h2 hin).imp_right fun _ => by simp only; omega, h3, h4,
      fun hf => ?_⟩
    · have := h1 hin
      simp only
      omega
    · have := h5 hf
      simp only
      omega
  | passes _ hpos hp | wakes _ hpos hp =>
    have hout : ∀ {P : Prop}, t.ctl.inPause = true → P := fun hin => by
      simp [ha.paused hin] at hp
    have hthaw : ∀ {P : Prop}, t.frozen = true → P := fun hf => by
      simp [h3 hf] at hp
    exact ⟨hout, hout, hthaw, hthaw, hthaw⟩
  | goesOn => exact ⟨h1, h2, h3, h4, h5⟩

theorem Still.control {now : ℕ} (h : t.Still) (ha : t.Accounted)
    (hm : t.Move (.control now) t') : t'.Still := by
  obtain ⟨h1, h2, h3, h4, h5⟩ := h
  obtain ⟨hw, hp, hpl, hb, hpa⟩ := ha
  cases hm with
  | pauseReturns _ i hctl hi =>
    simp only [hctl, Ctl.inPause, Ctl.acquired, Ctl.pushed, Ctl.spawns, Ctl.goal, Ctl.stops,
      forall_const] at h1 h2 hw hp hpa
    refine ⟨by simp [Ctl.inPause], by simp [Ctl.inPause], fun _ => hpa, fun _ => ?_, fun _ => ?_⟩
    · simp only
      omega
    · simp only [Ctl.spawns]
      omega
  | pushPause _ i hctl hi =>
    simp only [hctl, Ctl.inPause, Ctl.acquired, Ctl.spawns, forall_const] at h1 h2 h5
    exact ⟨fun _ => h1, fun _ => h2, h3, h4, h5⟩
  | pushed _ i hctl hi =>
    simp only [hctl, Ctl.inPause, Ctl.acquired, Ctl.spawns, forall_const] at h1 h2 h5
    exact ⟨fun _ => h1, fun _ => h2, h3, h4, h5⟩
  | acquire _ i hctl hi hsem =>
    simp only [hctl, Ctl.inPause, Ctl.acquired, Ctl.spawns, forall_const] at h1 h2 h5
    refine ⟨fun _ => ?_, fun _ => h2.imp_right fun _ => ?_, h3, h4, h5⟩
    · simp only [Ctl.acquired]
      omega
    · simp only [Ctl.acquired]
      omega
  | pushEnd _ _ _ hctl | pushLast _ _ hctl =>
    refine ⟨by simp [Ctl.inPause], by simp [Ctl.inPause], h3, h4, fun hf => ?_⟩
    have hle := h5 hf
    simp only [hctl, Ctl.spawns] at hle ⊢
    omega
  | recycle _ _ _ _ hctl | emplace _ _ _ hctl =>
    refine ⟨by simp [Ctl.inPause], by simp [Ctl.inPause], h3, h4, fun hf => ?_⟩
    have hle := h5 hf
    simp only [hctl, Ctl.spawns] at hle ⊢
    omega
  | ended _ _ hctl | spawned _ _ hctl | seeDeleted _ _ _ hctl | seeNone _ _ _ hctl
  | joined _ _ _ _ hctl | pushedLast _ hctl | allJoined _ hctl =>
    refine ⟨by simp [Ctl.inPause], by simp [Ctl.inPause], h3, h4, fun hf => ?_⟩
    simpa only [hctl, Ctl.spawns] using h5 hf

end Tally

theorem step_still (hst : step s e = some s') (hg : Gradual s e) (ho : s.Ordered)
    (ha : s.tally.Accounted) (h : s.tally.Still) : s'.tally.Still := by
  have hm := step_tally hst ho
  cases e with
  | pop i k => exact h.pop hm
  | advance i => exact h.advance ha hm
  | control now => exact h.control ha hm
  | call c =>
    obtain ⟨h1, h2, h3, h4, h5⟩ := h
    have hw := ha.workers
    generalize s'.tally = t' at hm
    cases hm with
    | addTask => exact ⟨h1, h2, h3, h4, h5⟩
    | pause hctl =>
      have hsem := (ha.no_pauses (by simp [hctl, Ctl.inPause])).2
      simp only [hctl, Ctl.spawns] at h5
      refine ⟨fun _ => ?_, fun _ => hg.imp_right fun hle => ?_, fun _ => rfl, h4, h5⟩
      · simp [hsem, Ctl.acquired]
      · simp only [hsem, Ctl.acquired]
        exact hle
    | resume hctl => exact ⟨by simp [hctl, Ctl.inPause], by simp [hctl, Ctl.inPause], by simp, by simp,
        by simp⟩
    | grow n hctl hn =>
      simp only [hctl, Ctl.spawns, Ctl.goal, Ctl.stops] at hw
      refine ⟨by simp [Ctl.inPause], by simp [Ctl.inPause], h3, h4, fun hf => ?_⟩
      have hle : n ≤ s.tally.waiting := hg hf
      simp only [Ctl.spawns]
      omega
    | shrink n hctl hn | destroy hctl =>
      refine ⟨by simp [Ctl.inPause], by simp [Ctl.inPause], h3, h4, fun hf => ?_⟩
      simpa only [hctl, Ctl.spawns] using h5 hf

theorem run_still {n : ℕ} {es : List Event} (hrun : run step Gradual es (threadPool n) = some s) :
    s.tally.Still := by
  have hall : s.Ordered ∧ s.tally.Accounted ∧ s.tally.Still := by
    refine run_invariant (P := fun s => s.Ordered ∧ s.tally.Accounted ∧ s.tally.Still) ?_ hrun
      ⟨threadPool_ordered n, threadPool_accounted n, ?_⟩
    · rintro s e s' hg hst ⟨ho, ha, h⟩
      exact ⟨step_ordered hst ho, ha.move (step_tally hst ho), step_still hst hg ho ha h⟩
    · constructor <;> simp [threadPool, State.tally, Ctl.inPause]
  exact hall.2.2

/-- After a `Pause` has returned and before the next `Resume` is called, no worker begins a
submitted task, in every run whose calls are gradual. -/
theorem run_not_begins {n : ℕ} {es : List Event}
    (hrun : run step Gradual es (threadPool n) = some s) (hfrozen : s.frozen = true)
    (hst : step s e = some s') : ¬ Begins s s' := by
  intro hb
  have hpos := unstarted_pos_of_begins hst hb
  have hzero := (run_still hrun).none hfrozen
  exact absurd hzero (Nat.ne_of_gt hpos)

/-- A pool of one worker is made, a task is added, and `Pause` returns. -/
def frozenPool : List Event :=
  [.control 0, .control 0, .control 0, .call .pause, .control 1, .control 2, .pop 0 0, .advance 0,
    .control 3, .control 4, .call (.addTask 7 .low 5)]

theorem run_not_begins_frozenPool : ∃ s, run step Gradual frozenPool (threadPool 1) = some s ∧
    s.frozen = true ∧ s.pq.length = 1 ∧ ∀ e s', step s e = some s' → ¬ Begins s s' := by
  have hrun : (run step Gradual frozenPool (threadPool 1)).map
      (fun s => (s.frozen, s.pq.length)) = some (true, 1) := by decide +kernel
  obtain ⟨s, hs, heq⟩ := Option.map_eq_some_iff.mp hrun
  simp only [Prod.mk.injEq] at heq
  exact ⟨s, hs, heq.1, heq.2, fun e s' hst => run_not_begins hs heq.1 hst⟩

/-- The paused pool is grown by one worker, which pops the task. -/
def growFrozen : List Event :=
  frozenPool ++ [.call (.setNumThreads 2), .control 6, .control 6, .control 6, .pop 1 0]

theorem growFrozen_begins : ∃ s s', run step (fun _ _ => True) growFrozen (threadPool 1) = some s ∧
    s.frozen = true ∧ step s (.advance 1) = some s' ∧ Begins s s' := by
  have hrun : (run step (fun _ _ => True) growFrozen (threadPool 1)).map
      (fun s => (s.frozen, s.workers)) =
      some (true, [⟨0, .waiting false⟩, ⟨1, .taken (.user 7)⟩]) := by decide +kernel
  obtain ⟨s, hs, heq⟩ := Option.map_eq_some_iff.mp hrun
  simp only [Prod.mk.injEq] at heq
  obtain ⟨hfrozen, hworkers⟩ := heq
  refine ⟨s, s.setPhase 1 (.running 7), hs, hfrozen, ?_, 1, 7, ?_, ?_⟩
  · simp [step, State.advance, hworkers]
  · simp [State.phaseAt, State.setPhase, hworkers]
  · simp [State.phaseAt, hworkers]

end IoTDrive.Pool
