import IoTDrive.Pool.Model

/-! The ids of the workers. `m_threads` owns the newest worker of every id below `m_tid`, and
an older worker of the id has reported itself before it was replaced. So an id reaches
`m_deleted_threads` at most once for each worker, and only when the worker that owns it
has left its loop. -/

namespace IoTDrive.Pool

namespace State

variable {s s' : State} {i : ℕ} {w : Worker} {p : Phase}

structure Registered (s : State) : Prop where
  fresh : ∀ id, s.tid ≤ id → s.threads id = none
  owner : ∀ id i, s.threads id = some i → ∃ w, s.workers[i]? = some w ∧ w.tid = id
  owned : ∀ i w, s.workers[i]? = some w → s.threads w.tid = some i ∨ w.phase.finished
  nodup : s.deletedThreads.Nodup
  deleted : ∀ id ∈ s.deletedThreads, ∃ i w,
    s.threads id = some i ∧ s.workers[i]? = some w ∧ w.phase.finished

/-- What the statement that the controlling thread is at relies on. -/
def CtlReady (s : State) : Prop :=
  match s.ctl with
  | .popping left _ => s.deletedThreads ≠ [] ∧ 0 < left
  | .joining i _ _ => ∃ w, s.workers[i]? = some w ∧ w.phase.finished
  | .threw | .discarding _ _ _ => False
  | _ => True

/-- The workers of a state go on: none is lost, and one that has reported its id does not
return. -/
structure GoOn (s s' : State) : Prop where
  threads : s'.threads = s.threads
  tid : s'.tid = s.tid
  length : s'.workers.length = s.workers.length
  worker : ∀ (i : ℕ) (w : Worker), s.workers[i]? = some w →
    ∃ w' : Worker, s'.workers[i]? = some w' ∧ w'.tid = w.tid ∧ (w.phase.finished → w'.phase.finished)

theorem setPhase_getElem? (hw : s.workers[i]? = some w) (j : ℕ) :
    (s.setPhase i p).workers[j]? = if i = j then some ⟨w.tid, p⟩ else s.workers[j]? := by
  simp only [setPhase, List.getElem?_modify]
  split_ifs with hij
  · subst hij
    simp [hw]
  · simp

theorem setPhase_same (hw : s.workers[i]? = some w) :
    (s.setPhase i p).workers[i]? = some ⟨w.tid, p⟩ := by
  rw [setPhase_getElem? hw, if_pos rfl]

theorem goOn_setPhase (hw : s.workers[i]? = some w) (hp : w.phase.finished → p.finished) :
    GoOn s (s.setPhase i p) := by
  refine ⟨rfl, rfl, by simp [setPhase], fun j v hv => ?_⟩
  rw [setPhase_getElem? hw]
  split_ifs with hij
  · subst hij
    obtain rfl := Option.some.inj (hw.symm.trans hv)
    exact ⟨_, rfl, rfl, hp⟩
  · exact ⟨v, hv, rfl, id⟩

theorem goOn_resume : GoOn s s.resume := by
  refine ⟨rfl, rfl, by simp [resume], fun j v hv => ?_⟩
  refine ⟨{ v with phase := v.phase.notify }, by simp [resume, hv], rfl, fun hf => ?_⟩
  cases hph : v.phase <;> simp_all [Phase.notify, Phase.finished]

/-- The worker behind a position of the new state. -/
theorem GoOn.back (h : GoOn s s') (hw : s'.workers[i]? = some w) :
    ∃ v, s.workers[i]? = some v ∧ w.tid = v.tid ∧ (v.phase.finished → w.phase.finished) := by
  have hlt : i < s.workers.length := h.length ▸ (List.getElem?_eq_some_iff.mp hw).1
  obtain ⟨w', hw', htid, hfin⟩ := h.worker i _ (List.getElem?_eq_getElem hlt)
  obtain rfl := Option.some.inj (hw.symm.trans hw')
  exact ⟨_, List.getElem?_eq_getElem hlt, htid, hfin⟩

theorem Registered.goOn (h : s.Registered) (hg : GoOn s s')
    (hdel : s'.deletedThreads = s.deletedThreads) : s'.Registered := by
  constructor
  case fresh =>
    rw [hg.tid, hg.threads]
    exact h.fresh
  case owner =>
    rw [hg.threads]
    intro id i hid
    obtain ⟨w, hw, rfl⟩ := h.owner id i hid
    obtain ⟨w', hw', htid, -⟩ := hg.worker i w hw
    exact ⟨w', hw', htid⟩
  case owned =>
    rw [hg.threads]
    intro i w hw
    obtain ⟨v, hv, htid, hfin⟩ := hg.back hw
    rw [htid]
    exact (h.owned i v hv).imp_right hfin
  case nodup => exact hdel ▸ h.nodup
  case deleted =>
    rw [hdel, hg.threads]
    intro id hid
    obtain ⟨i, w, hi, hw, hf⟩ := h.deleted id hid
    obtain ⟨w', hw', -, hfin⟩ := hg.worker i w hw
    exact ⟨i, w', hi, hw', hfin hf⟩

theorem CtlReady.goOn (h : s.CtlReady) (hg : GoOn s s') (hctl : s'.ctl = s.ctl)
    (hdel : s.deletedThreads ≠ [] → s'.deletedThreads ≠ []) : s'.CtlReady := by
  unfold CtlReady at h ⊢
  rw [hctl]
  split <;> simp_all only
  · exact ⟨hdel h.1, trivial⟩
  · obtain ⟨w, hw, hf⟩ := h
    obtain ⟨w', hw', -, hfin⟩ := hg.worker _ w hw
    exact ⟨w', hw', hfin hf⟩

/-- A worker that has not reported its id is the one that owns it. -/
theorem Registered.threads_eq (h : s.Registered) (hw : s.workers[i]? = some w)
    (hf : w.phase.finished = false) : s.threads w.tid = some i :=
  (h.owned i w hw).resolve_right (by simp [hf])

/-- A worker that has left its loop reports its id. -/
theorem Registered.report (h : s.Registered) (hw : s.workers[i]? = some w)
    (hleft : w.phase = .left) :
    Registered { s.setPhase i .done with deletedThreads := s.deletedThreads ++ [w.tid] } := by
  have hown := h.threads_eq hw (by simp [hleft, Phase.finished])
  have hdone := h.goOn (goOn_setPhase (p := .done) hw (fun _ => rfl)) rfl
  have hnot : w.tid ∉ s.deletedThreads := by
    intro hmem
    obtain ⟨j, v, hj, hv, hf⟩ := h.deleted _ hmem
    obtain rfl := Option.some.inj (hown.symm.trans hj)
    obtain rfl := Option.some.inj (hw.symm.trans hv)
    simp [hleft, Phase.finished] at hf
  refine ⟨hdone.fresh, hdone.owner, hdone.owned, ?_, fun id hid => ?_⟩
  · exact List.nodup_append.mpr ⟨h.nodup, by simp, fun x hx y hy hxy => by simp_all⟩
  · rcases List.mem_append.mp hid with hid | hid
    · exact hdone.deleted id hid
    · obtain rfl := List.mem_singleton.mp hid
      exact ⟨i, ⟨w.tid, .done⟩, hown, by simp [setPhase_getElem? hw], rfl⟩

/-- A new worker takes over an id whose last worker, if any, has reported itself. -/
theorem Registered.spawn (h : s.Registered) {id tid : ℕ} {rest : List ℕ} {ctl : Ctl}
    (hid : id < tid) (htid : s.tid ≤ tid)
    (hfree : ∀ i w, s.threads id = some i → s.workers[i]? = some w → w.phase.finished)
    (hrest : rest.Nodup) (hsub : ∀ x ∈ rest, x ∈ s.deletedThreads ∧ x ≠ id) :
    Registered { s.spawn id with
      deletedThreads := rest
      threads := Function.update s.threads id (some s.workers.length)
      tid := tid
      ctl := ctl } := by
  have hold : ∀ (i : ℕ) (w : Worker), s.workers[i]? = some w → (s.workers ++ [⟨id, .loop⟩])[i]? = some w := by
    intro i w hw
    rw [List.getElem?_append_left (List.getElem?_eq_some_iff.mp hw).1]
    exact hw
  constructor
  case fresh =>
    intro x hx
    simp only at hx
    simpa [show x ≠ id by omega] using h.fresh x (by omega)
  case owner =>
    intro x i hx
    by_cases hxid : x = id
    · subst hxid
      obtain rfl : s.workers.length = i := by simpa using hx
      exact ⟨⟨x, .loop⟩, by simp [State.spawn], rfl⟩
    · obtain ⟨w, hw, rfl⟩ := h.owner x i (by simpa [hxid] using hx)
      exact ⟨w, hold i w hw, rfl⟩
  case owned =>
    intro i w hw
    simp only [State.spawn] at hw ⊢
    rcases Nat.lt_trichotomy i s.workers.length with hi | rfl | hi
    · rw [List.getElem?_append_left hi] at hw
      by_cases hwid : w.tid = id
      · -- the id is taken over, so its last worker has reported itself
        refine .inr ((h.owned i w hw).elim (fun hown => ?_) fun hf => hf)
        exact hfree i w (hwid ▸ hown) hw
      · simpa [hwid] using h.owned i w hw
    · obtain rfl : (⟨id, .loop⟩ : Worker) = w := by simpa using hw
      exact .inl (by simp)
    · rw [List.getElem?_eq_none (by simp; omega)] at hw
      cases hw
  case nodup => exact hrest
  case deleted =>
    intro x hx
    obtain ⟨hmem, hne⟩ := hsub x hx
    obtain ⟨i, w, hi, hw, hf⟩ := h.deleted x hmem
    exact ⟨i, w, by simpa [hne] using hi, hold i w hw, hf⟩

/-! ### Steps -/

/-- The ids are in order, and so is what the controlling thread relies on. -/
structure Ordered (s : State) : Prop where
  registered : s.Registered
  ready : s.CtlReady

theorem Ordered.goOn (h : s.Ordered) (hg : GoOn s s') (hdel : s'.deletedThreads = s.deletedThreads)
    (hctl : s'.ctl = s.ctl) : s'.Ordered :=
  ⟨h.registered.goOn hg hdel, h.ready.goOn hg hctl (hdel ▸ fun hne => hne)⟩

/-- A statement that leaves the workers alone. -/
theorem Ordered.control (h : s.Ordered) (hth : s'.threads = s.threads) (htid : s'.tid = s.tid)
    (hw : s'.workers = s.workers) (hdel : s'.deletedThreads = s.deletedThreads)
    (hready : s'.CtlReady) : s'.Ordered := by
  refine ⟨h.registered.goOn ⟨hth, htid, by rw [hw], fun i w hi => ?_⟩ hdel, hready⟩
  exact ⟨w, hw ▸ hi, rfl, fun hf => hf⟩

theorem Ordered.advances (h : s.Ordered) (hw : s.workers[i]? = some w)
    (ha : Advances s i w s') : s'.Ordered := by
  have hgo : ∀ p : Phase, w.phase.finished = false → GoOn s (s.setPhase i p) := fun p hf =>
    goOn_setPhase hw (by simp [hf])
  cases ha with
  | begins id hp => exact h.goOn (hgo _ (by simp [hp, Phase.finished])) rfl rfl
  | pauses hp =>
    have hg := hgo s.afterWait (by simp [hp, Phase.finished])
    exact h.goOn ⟨hg.threads, hg.tid, hg.length, hg.worker⟩ rfl rfl
  | ends hp => exact h.goOn (hgo _ (by simp [hp, Phase.finished])) rfl rfl
  | returns id hp => exact h.goOn (hgo _ (by simp [hp, Phase.finished])) rfl rfl
  | wakes hp => exact h.goOn (hgo _ (by simp [hp, Phase.finished])) rfl rfl
  | reports hp =>
    refine ⟨h.registered.report hw hp, ?_⟩
    have hg := hgo .done (by simp [hp, Phase.finished])
    exact h.ready.goOn ⟨hg.threads, hg.tid, hg.length, hg.worker⟩ rfl (by simp)
  | exits hp => exact h.goOn (goOn_setPhase hw fun _ => rfl) rfl rfl

theorem Ordered.recycle (h : s.Ordered) {left target id : ℕ} {rest : List ℕ}
    (hdel : s.deletedThreads = id :: rest) : (s.recycle id rest left target).Ordered := by
  have hnodup := h.registered.nodup
  rw [hdel, List.nodup_cons] at hnodup
  obtain ⟨j, v, hj, hv, hf⟩ := h.registered.deleted id (by simp [hdel])
  have hlt : id < s.tid := by
    by_contra hge
    rw [h.registered.fresh id (by omega)] at hj
    cases hj
  simp only [State.recycle, hj]
  refine ⟨?_, ?_⟩
  · refine h.registered.spawn hlt (Nat.le_refl _) (fun i w hi hw => ?_) hnodup.2 fun x hx => ?_
    · obtain rfl := Option.some.inj (hj.symm.trans hi)
      obtain rfl := Option.some.inj (hv.symm.trans hw)
      exact hf
    · exact ⟨by simp [hdel, hx], fun hxid => hnodup.1 (hxid ▸ hx)⟩
  · refine ⟨v, ?_, hf⟩
    simp only [State.spawn]
    rw [List.getElem?_append_left (List.getElem?_eq_some_iff.mp hv).1]
    exact hv

theorem Ordered.emplace (h : s.Ordered) {left target : ℕ} : (s.emplace left target).Ordered := by
  have hfree := h.registered.fresh s.tid (Nat.le_refl _)
  simp only [State.emplace, hfree]
  refine ⟨?_, trivial⟩
  refine h.registered.spawn (Nat.lt_succ_self _) (Nat.le_succ _) (fun i w hi => ?_)
    h.registered.nodup fun x hx => ⟨hx, ?_⟩
  · rw [hfree] at hi
    cases hi
  · rintro rfl
    obtain ⟨i, w, hi, -⟩ := h.registered.deleted _ hx
    rw [hfree] at hi
    cases hi

theorem Ordered.controls (h : s.Ordered) {now : ℕ} (hc : Controls s now s') : s'.Ordered := by
  cases hc with
  | recycle left target id rest hctl hdel => exact h.recycle hdel
  | emplace left target hctl => exact h.emplace
  | seeDeleted left target hctl hc => exact h.control rfl rfl rfl rfl hc
  | discarded w left target hctl hj =>
    have hready := h.ready
    rw [CtlReady, hctl] at hready
    exact hready.elim
  | _ => exact h.control rfl rfl rfl rfl trivial

theorem Ordered.call (h : s.Ordered) (hctl : s.ctl = .idle) (c : Call) : (s.call c).Ordered := by
  cases c with
  | addTask id pr now => exact h.control rfl rfl rfl rfl (by simp [CtlReady, State.call, addTask, push, hctl])
  | pause => exact h.control rfl rfl rfl rfl trivial
  | resume => exact h.goOn goOn_resume rfl rfl
  | setNumThreads n =>
    simp only [State.call, setNumThreads]
    split_ifs
    · exact h.control rfl rfl rfl rfl trivial
    · exact h.control rfl rfl rfl rfl trivial
  | destroy => exact h.control rfl rfl rfl rfl trivial

end State

variable {s s' : State} {e : Event}

theorem step_ordered (hst : step s e = some s') (h : s.Ordered) : s'.Ordered := by
  cases e with
  | call c =>
    simp only [step] at hst
    split_ifs at hst with hctl
    exact Option.some.inj hst ▸ h.call hctl c
  | control now => exact h.controls (State.control_cases hst)
  | pop i k =>
    obtain ⟨w, t, hw, -, hp, -, rfl⟩ := State.pop_cases hst
    have hg := State.goOn_setPhase (p := .taken t.task) hw (by simp [hp, Phase.finished])
    exact h.goOn ⟨hg.threads, hg.tid, hg.length, hg.worker⟩ rfl rfl
  | advance i =>
    obtain ⟨w, hw, ha⟩ := State.advance_cases hst
    exact h.advances hw ha

theorem threadPool_ordered (n : ℕ) : (threadPool n).Ordered :=
  ⟨⟨fun _ _ => rfl, by simp [threadPool], by simp [threadPool], List.nodup_nil,
    by simp [threadPool]⟩, trivial⟩

end IoTDrive.Pool
