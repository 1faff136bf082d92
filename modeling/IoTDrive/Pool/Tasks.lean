import IoTDrive.Pool.Progress

/-! What becomes of the submitted tasks. A task is in the queue, or popped by a worker that
has not begun it, or it has been begun; whatever else is called, it goes from one to the
next once and is never lost. A worker that is left in `Pop` with nothing to take means
that all of them have been begun. -/

namespace IoTDrive.Pool

open Lib

/-- The tasks that an event submits, and those that a step begins. -/
def submits : Event → List ℕ
  | .call (.addTask id _ _) => [id]
  | _ => []

def Phase.begins : Phase → List ℕ
  | .taken (.user id) => [id]
  | _ => []

def begins (s : State) : Event → List ℕ
  | .advance i => (s.workers[i]?.map fun w => w.phase.begins).getD []
  | _ => []

/-- All tasks submitted, and all tasks begun, in their order. -/
def submitted (es : List Event) : List ℕ := es.flatMap submits

def begun : List Event → State → List ℕ
  | [], _ => []
  | e :: es, s => begins s e ++ (step s e).elim [] (begun es)

namespace State

/-- How often a task waits in the queue, and with a worker that has popped it. -/
def queued (s : State) (id : ℕ) : ℕ := s.pq.countP fun t => t.task == .user id

def popped (s : State) (id : ℕ) : ℕ := s.workers.countP fun w => w.phase == .taken (.user id)

/-- No worker can go on. -/
structure Quiet (s : State) : Prop where
  noPop : ∀ i k, step s (.pop i k) = none
  noAdvance : ∀ i, step s (.advance i) = none

variable {s s' u : State} {i k id : ℕ} {w : Worker} {p : Phase} {t : TPTask}

theorem queued_push (hs : u.pq = (s.push t).pq) :
    u.queued id = s.queued id + one (t.task == .user id) := by
  simp [queued, hs, push, one, List.countP_cons]

theorem popped_setPhase (hs : u.workers = (s.setPhase i p).workers) (hw : s.workers[i]? = some w) :
    u.popped id + one (w.phase == .taken (.user id)) =
      s.popped id + one (p == .taken (.user id)) := by
  simp only [popped, hs, setPhase]
  exact countP_modify_add _ hw

theorem popped_spawn {tid : ℕ} (hs : u.workers = (s.spawn tid).workers) :
    u.popped id = s.popped id := by
  simp [popped, hs, spawn]

theorem popped_resume : s.resume.popped id = s.popped id := by
  have hn : ∀ p : Phase, (p.notify == .taken (.user id)) = (p == .taken (.user id)) := by
    intro p
    cases p <;> rfl
  simp [popped, resume, List.countP_map, Function.comp_def, hn]

/-- The controlling thread pushes the pool's own tasks only and makes new workers. -/
theorem Controls.keeps {now : ℕ} (hc : Controls s now s') :
    s'.queued id = s.queued id ∧ s'.popped id = s.popped id := by
  cases hc with
  | pushPause | pushEnd | pushLast =>
    exact ⟨queued_push (t := _) rfl, rfl⟩
  | recycle left target tid rest =>
    simp only [State.recycle]
    split
    · exact ⟨rfl, popped_spawn rfl⟩
    · exact ⟨rfl, popped_spawn rfl⟩
  | emplace left target =>
    simp only [State.emplace]
    split
    · exact ⟨rfl, popped_spawn rfl⟩
    · exact ⟨rfl, popped_spawn rfl⟩
  | _ => exact ⟨rfl, rfl⟩

theorem afterWait_ne_taken (s : State) (job : Job) : (s.afterWait == .taken job) = false := by
  unfold afterWait
  split_ifs <;> rfl

theorem count_begins (p : Phase) : p.begins.count id = one (p == .taken (.user id)) := by
  rcases p with _ | (id' | _ | _) | _ | _ | _ | _ | _ <;> try rfl
  by_cases h : id' = id
  · simp [Phase.begins, one, h]
  · simp [Phase.begins, one, h]

/-- A worker leaves its popped task only by beginning it. -/
theorem Advances.keeps (hw : s.workers[i]? = some w) (ha : Advances s i w s') :
    s'.queued id = s.queued id ∧ s'.popped id + w.phase.begins.count id = s.popped id := by
  have hleaves : ∀ {p : Phase} {u : State}, u.workers = (s.setPhase i p).workers →
      (p == .taken (.user id)) = false →
        u.popped id + w.phase.begins.count id = s.popped id := by
    intro p u hs hp
    have hcount : u.popped id + one (w.phase == .taken (.user id)) =
        s.popped id + one (p == .taken (.user id)) := popped_setPhase hs hw
    rw [hp, one_false, Nat.add_zero] at hcount
    rw [count_begins, hcount]
  cases ha with
  | pauses _ => exact ⟨rfl, hleaves rfl (s.afterWait_ne_taken _)⟩
  | wakes _ => exact ⟨rfl, hleaves rfl (s.afterWait_ne_taken _)⟩
  | begins _ _ | ends _ | returns _ _ | reports _ | exits _ => exact ⟨rfl, hleaves rfl rfl⟩

theorem call_keeps (c : Call) : (s.call c).queued id + (s.call c).popped id =
    s.queued id + s.popped id + (submits (.call c)).count id := by
  cases c with
  | addTask id' pr now =>
    have hqueued : (s.call (.addTask id' pr now)).queued id =
        s.queued id + one ((TPTask.user id' pr now).task == .user id) := queued_push rfl
    have hone : one ((TPTask.user id' pr now).task == .user id) = [id'].count id := by
      by_cases h : id' = id
      · simp [TPTask.user, one, h]
      · simp [TPTask.user, one, h]
    rw [hqueued, hone, submits]
    change _ + s.popped id = _
    omega
  | resume =>
    change s.queued id + s.resume.popped id = _
    rw [popped_resume]
    rfl
  | setNumThreads n =>
    simp only [call, setNumThreads]
    split_ifs <;> rfl
  | pause => rfl
  | destroy => rfl

end State

/-- One step moves a task on or leaves it where it is. -/
theorem step_keeps {s s' : State} {e : Event} (hst : step s e = some s') (id : ℕ) :
    (begins s e).count id + s'.queued id + s'.popped id =
      s.queued id + s.popped id + (submits e).count id := by
  cases e with
  | call c =>
    obtain ⟨-, rfl⟩ := Option.ite_some_none_eq_some.mp hst
    simpa [begins] using State.call_keeps c
  | control now =>
    have ⟨hq, hp⟩ : s'.queued id = s.queued id ∧ s'.popped id = s.popped id :=
      (State.control_cases hst).keeps
    simp [begins, submits, hq, hp]
  | pop i k =>
    obtain ⟨w, t, hw, ht, hloop, -, rfl⟩ := State.pop_cases hst
    have hqueued : (s.pq.eraseIdx k).countP (fun t => t.task == .user id) +
        one (t.task == .user id) = s.queued id := countP_eraseIdx_add ht
    have hpopped : State.popped { s.setPhase i (.taken t.task) with pq := s.pq.eraseIdx k } id +
        one (w.phase == .taken (.user id)) =
          s.popped id + one (Phase.taken t.task == .taken (.user id)) :=
      State.popped_setPhase rfl hw
    have hsame : (Phase.taken t.task == .taken (.user id)) = (t.task == .user id) := by
      cases t.task <;> simp
    rw [hloop, hsame] at hpopped
    simp only [begins, submits, List.count_nil, State.queued] at hqueued hpopped ⊢
    change 0 + (s.pq.eraseIdx k).countP _ + _ = _
    have hnone : one (Phase.loop == .taken (.user id)) = 0 := rfl
    omega
  | advance i =>
    obtain ⟨w, hw, ha⟩ := State.advance_cases hst
    have ⟨hq, hp⟩ : s'.queued id = s.queued id ∧
        s'.popped id + w.phase.begins.count id = s.popped id := ha.keeps hw
    simp only [begins, hw, Option.map_some, Option.getD_some, submits, List.count_nil, hq]
    omega

theorem run_keeps {es : List Event} {s s' : State}
    (hrun : run step (fun _ _ => True) es s = some s') (id : ℕ) :
    (begun es s).count id + s'.queued id + s'.popped id =
      s.queued id + s.popped id + (submitted es).count id := by
  induction es generalizing s with
  | nil =>
    obtain rfl := Option.some.inj hrun
    simp [begun, submitted]
  | cons e es ih =>
    obtain ⟨-, m, hm, hrest⟩ := run_cons.mp hrun
    have hstep := step_keeps hm id
    have htail := ih hrest
    rw [begun, hm, Option.elim_some, List.count_append]
    rw [submitted, List.flatMap_cons, List.count_append, ← submitted]
    omega

theorem State.Quiet.none_waiting {s : State} (h : s.Quiet) (hn : s.Notified)
    (hpaused : s.paused = false) (hlive : 0 < s.live) (id : ℕ) :
    s.queued id = 0 ∧ s.popped id = 0 := by
  obtain ⟨w, hmem, hlive⟩ := List.countP_pos_iff.mp hlive
  obtain ⟨i, hw⟩ := List.getElem?_of_mem hmem
  constructor
  · -- this worker waits in `Pop`
    have hloop : w.phase = .loop := by
      rcases State.phase_of_noAdvance (h.noAdvance i) hw with hp | hp | hp
      · exact hp
      · exact absurd hp (hn hpaused w hmem)
      · simp [hp, Phase.live] at hlive
    simp [State.queued, State.pq_eq_nil_of_noPop (h.noPop i) hw hloop]
  · refine List.countP_eq_zero.mpr fun v hmem' htaken => ?_
    obtain ⟨j, hv⟩ := List.getElem?_of_mem hmem'
    rcases State.phase_of_noAdvance (h.noAdvance j) hv with hp | hp | hp <;> simp [hp] at htaken

/-- Whatever is called and however the workers take turns, each submission of a task is in the
queue, with a worker that has popped and not begun it, or begun, once altogether; and when
the workers of a pool that is not paused have nothing left to do, all have been begun. -/
theorem tasks_once {n : ℕ} {es : List Event} {s : State}
    (hrun : run step (fun _ _ => True) es (threadPool n) = some s) (id : ℕ) :
    (begun es (threadPool n)).count id + s.queued id + s.popped id = (submitted es).count id ∧
      (s.Quiet → s.paused = false → 0 < s.live →
        (begun es (threadPool n)).count id = (submitted es).count id) := by
  have hkeeps := run_keeps hrun id
  have hzero : (threadPool n).queued id = 0 ∧ (threadPool n).popped id = 0 := ⟨rfl, rfl⟩
  have hall : (begun es (threadPool n)).count id + s.queued id + s.popped id =
      (submitted es).count id := by omega
  refine ⟨hall, fun hquiet hpaused hlive => ?_⟩
  have hn : s.Notified := run_invariant (fun _ _ _ _ hst h => step_notified hst h) hrun
    fun _ _ hmem => by simp [threadPool] at hmem
  obtain ⟨hq, hp⟩ := hquiet.none_waiting hn hpaused hlive id
  omega

/-- One worker and three submissions, two of one task; one of them is left in the queue. -/
def twoBegun : List Event :=
  [.control 0, .control 0, .control 0, .call (.addTask 7 .low 1), .call (.addTask 8 .high 2),
    .call (.addTask 7 .low 3), .pop 0 1, .advance 0, .advance 0, .pop 0 1, .advance 0]

theorem tasks_once_twoBegun :
    ∃ s, run step (fun _ _ => True) twoBegun (threadPool 1) = some s ∧ s.queued 7 = 1 ∧
      begun twoBegun (threadPool 1) = [8, 7] ∧
      (begun twoBegun (threadPool 1)).count 7 + s.queued 7 + s.popped 7 =
        (submitted twoBegun).count 7 :=
  ⟨_, rfl, by decide, by decide, (tasks_once (n := 1) rfl 7).1⟩

end IoTDrive.Pool
