import IoTDrive.Sched.NoLoss

/-! Tasks that run before their time. An expiry says that the earliest task was due when the
timer was set, and `RunTask` pops whatever is on top when it gets the lock. Between the
two the timer may be set again for the same task, so that two executions come for it and
the second takes a task that is not due. What follows counts the executions still to come
against the tasks that are due. -/

namespace IoTDrive.Sched

open Lib

/-- The tasks of a queue that are due at a time. -/
def dueBy (queue : List Task) (time : ℤ) : ℕ :=
  queue.countP fun t => decide (t.timeToRun ≤ time)

theorem dueBy_le_length (queue : List Task) (time : ℤ) : dueBy queue time ≤ queue.length :=
  List.countP_le_length

theorem dueBy_mono (queue : List Task) {a b : ℤ} (h : a ≤ b) : dueBy queue a ≤ dueBy queue b := by
  apply List.countP_mono_left
  intro t _ ht
  simp only [decide_eq_true_eq] at ht ⊢
  omega

theorem dueBy_pos_of_mem {queue : List Task} {t : Task} {time : ℤ} (ht : t ∈ queue)
    (hd : t.timeToRun ≤ time) : 0 < dueBy queue time :=
  List.countP_pos_iff.mpr ⟨t, ht, by simpa using hd⟩

/-- Where some task is due, the top of the queue is. -/
theorem due_of_top {queue : List Task} {t : Task} {time : ℤ} (htop : ∀ u ∈ queue, ¬ t.Less u)
    (hd : 0 < dueBy queue time) : t.timeToRun ≤ time := by
  obtain ⟨u, hu, hut⟩ := List.countP_pos_iff.mp hd
  have hle := htop u hu
  unfold Task.Less at hle
  simp only [decide_eq_true_eq] at hut
  omega

theorem dueBy_eraseIdx {queue : List Task} {k : ℕ} {t : Task} {time : ℤ}
    (ht : queue[k]? = some t) (hd : t.timeToRun ≤ time) :
    dueBy (queue.eraseIdx k) time + 1 = dueBy queue time := by
  have h := countP_eraseIdx_add (p := fun t => decide (t.timeToRun ≤ time)) ht
  simpa [dueBy, hd] using h

namespace State

variable {s s' : State}

/-- Expiries whose execution of `RunTask` has not looked at the queue. -/
def outstanding (s : State) : ℕ := s.pending + s.runs.countP fun r => !r.popped

/-- Setting the timer for a queue starts no task early: no expiry is outstanding, or more
tasks are due than expiries are outstanding, or every task is due. -/
def MayArm (s : State) (queue : List Task) : Prop :=
  s.outstanding = 0 ∨ s.outstanding < dueBy queue s.now ∨ dueBy queue s.now = queue.length

instance (s : State) (queue : List Task) : Decidable (s.MayArm queue) :=
  inferInstanceAs (Decidable (_ ∨ _ ∨ _))

/-- The first critical section of a `RunTask` can take the task here. -/
def Starts (s : State) (t : Task) : Prop :=
  ∃ r k s', step s (.pop r k) = some s' ∧ s.queue[k]? = some t ∧ s'.runs[r]? = some (.running t)

/-- There are due tasks for the executions to come, and for one more where the timer is
armed. -/
structure Covered (s : State) : Prop where
  due : min s.outstanding s.queue.length ≤ dueBy s.queue s.now
  armed : ∀ its : Timespec, s.armed = some its →
    min (s.outstanding + 1) s.queue.length ≤ dueBy s.queue (max s.now its.time)

end State

/-- The steps that set the timer set it only where they may. -/
def ArmsSafely : State → Event → Prop
  | s, .addTask _ interval => s.MayArm (s.queue ++ [⟨s.added, s.now + interval * 1000000⟩])
  | s, .finish _ _ => s.MayArm s.queue
  | _, _ => True

instance (s : State) (e : Event) : Decidable (ArmsSafely s e) :=
  match e with
  | .addTask _ _ | .finish _ _ => inferInstanceAs (Decidable (s.MayArm _))
  | .tick _ | .expire | .enter | .pop _ _ => inferInstanceAs (Decidable True)

namespace State

variable {s s' : State}

/-- The timer is set for the earliest task. -/
theorem startTimer_min (h : s.queue ≠ []) :
    ∃ t, t ∈ s.queue ∧ (∀ u ∈ s.queue, t.timeToRun ≤ u.timeToRun) ∧
      s.startTimer = { s with armed := some (.ofTime t.timeToRun) } := by
  have hmin := Option.isSome_iff_exists.mp (List.isSome_min?_of_ne_nil
    (by simpa using h : s.queue.map Task.timeToRun ≠ []))
  obtain ⟨m, hm⟩ := hmin
  obtain ⟨hmem, hle⟩ := List.min?_eq_some_iff.mp hm
  obtain ⟨t, ht, rfl⟩ := List.mem_map.mp hmem
  refine ⟨t, ht, fun u hu => hle _ (List.mem_map_of_mem hu), ?_⟩
  unfold startTimer
  rw [hm]

/-- Setting the timer where it may be set. -/
theorem Covered.startTimer (hne : s.queue ≠ []) (h : s.MayArm s.queue) :
    s.startTimer.Covered := by
  obtain ⟨t, ht, -, heq⟩ := startTimer_min hne
  rw [heq]
  have hlen := dueBy_le_length s.queue s.now
  refine ⟨?_, ?_⟩
  · show min s.outstanding s.queue.length ≤ dueBy s.queue s.now
    unfold MayArm at h
    omega
  · intro its hits
    obtain rfl := Option.some.inj hits
    show min (s.outstanding + 1) s.queue.length ≤
      dueBy s.queue (max s.now (Timespec.ofTime t.timeToRun).time)
    have hmono := dueBy_mono s.queue (Int.le_max_left s.now (Timespec.ofTime t.timeToRun).time)
    have hpos : 0 < dueBy s.queue (max s.now (Timespec.ofTime t.timeToRun).time) := by
      apply dueBy_pos_of_mem ht
      rw [Timespec.time_ofTime]
      exact Int.le_max_right _ _
    unfold MayArm at h
    omega

theorem Covered.addTask {interval : ℤ}
    (h : s.MayArm (s.queue ++ [⟨s.added, s.now + interval * 1000000⟩])) :
    (s.addTask interval).Covered := by
  unfold State.addTask
  apply Covered.startTimer
  · simp
  · exact h

theorem Covered.tick (h : s.Covered) (d : ℕ) : Covered { s with now := s.now + d } := by
  constructor
  · apply Nat.le_trans h.due
    apply dueBy_mono
    simp only
    omega
  · intro its hits
    apply Nat.le_trans (h.armed its hits)
    apply dueBy_mono
    simp only
    omega

theorem Covered.expire (h : s.Covered) (hst : s.expire = some s') : s'.Covered := by
  obtain ⟨its, harm, hdue, rfl⟩ := expire_cases hst
  have hready := h.armed its harm
  rw [Int.max_eq_left hdue] at hready
  refine ⟨?_, fun its' h' => by cases h'⟩
  unfold outstanding at hready ⊢
  simp only
  omega

theorem outstanding_enter (hst : s.enter = some s') : s'.outstanding = s.outstanding := by
  obtain ⟨hpos, rfl⟩ := enter_cases hst
  simp only [outstanding, Run.popped, List.countP_append, List.countP_cons, List.countP_nil,
    Bool.not_false, if_true]
  omega

theorem Covered.enter (h : s.Covered) (hst : s.enter = some s') : s'.Covered := by
  have hout := outstanding_enter hst
  obtain ⟨-, rfl⟩ := enter_cases hst
  constructor
  · rw [hout]
    exact h.due
  · intro its hits
    rw [hout]
    exact h.armed its hits

/-- An execution that looks at the queue is outstanding no more. -/
theorem outstanding_popTask {r k : ℕ} (hst : s.popTask r k = some s') :
    s'.outstanding + 1 = s.outstanding := by
  obtain ⟨hr, ⟨-, rfl⟩ | ⟨t, -, -, rfl⟩⟩ := popTask_cases hst
  · have hcount := countP_eraseIdx_add (p := fun r => !Run.popped r) hr
    simp only [outstanding, Run.popped, Bool.not_false, one_true] at hcount ⊢
    omega
  · have hcount := countP_modify_add (p := fun r => !Run.popped r) (fun _ => .running t) hr
    simp only [outstanding, Run.popped, Bool.not_false, Bool.not_true, one_true, one_false]
      at hcount ⊢
    omega

theorem Covered.popTask {r k : ℕ} (h : s.Covered) (hst : s.popTask r k = some s') :
    s'.Covered := by
  have hout := outstanding_popTask hst
  obtain ⟨-, ⟨hempty, rfl⟩ | ⟨t, ht, htop, rfl⟩⟩ := popTask_cases hst
  · constructor
    · simp [hempty]
    · intro its _
      simp [hempty]
  · obtain ⟨hk, -⟩ := List.getElem?_eq_some_iff.mp ht
    have hlen : (s.queue.eraseIdx k).length + 1 = s.queue.length := by
      rw [List.length_eraseIdx_of_lt hk]
      omega
    have hready := h.due
    have hdue : t.timeToRun ≤ s.now := due_of_top htop (by omega)
    constructor
    · have herase := dueBy_eraseIdx ht hdue
      simp only at hout ⊢
      omega
    · intro its hits
      have harmed := h.armed its hits
      have hlater : t.timeToRun ≤ max s.now its.time := by omega
      have herase := dueBy_eraseIdx ht hlater
      simp only at hout ⊢
      omega

theorem outstanding_eraseIdx {r : ℕ} {t : Task} (counter : ℕ)
    (hr : s.runs[r]? = some (.running t)) :
    outstanding { s with counter := counter, runs := s.runs.eraseIdx r } = s.outstanding := by
  have hcount := countP_eraseIdx_add (p := fun r => !Run.popped r) hr
  simp only [outstanding, Run.popped, Bool.not_true, one_false] at hcount ⊢
  omega

theorem Covered.finish {r : ℕ} (h : s.Covered) (harm : s.MayArm s.queue)
    (hst : s.finish r = some s') : s'.Covered := by
  obtain ⟨t, hr, hcase⟩ := finish_cases hst
  have hout := outstanding_eraseIdx (s.counter - 1) hr
  have hended : Covered { s with counter := s.counter - 1, runs := s.runs.eraseIdx r } := by
    constructor
    · rw [hout]
      exact h.due
    · intro its hits
      rw [hout]
      exact h.armed its hits
  obtain ⟨-, rfl⟩ | ⟨-, hne, rfl⟩ | ⟨-, -, rfl⟩ := hcase
  · exact hended
  · apply Covered.startTimer
    · exact hne
    · unfold MayArm
      rw [hout]
      exact harm
  · exact hended

end State

theorem step_covered {s s' : State} {e : Event} (hg : ArmsSafely s e) (hst : step s e = some s')
    (h : s.Covered) : s'.Covered := by
  cases e with
  | tick d => exact Option.some.inj hst ▸ h.tick d
  | addTask caller interval =>
    simp only [step] at hst
    split_ifs at hst
    exact Option.some.inj hst ▸ .addTask hg
  | expire => exact h.expire hst
  | enter => exact h.enter hst
  | pop r k => exact h.popTask hst
  | finish r threw => exact h.finish hg hst

theorem scheduler_covered (now : ℤ) : (scheduler now).Covered := by
  constructor
  · exact Nat.zero_le _
  · intro its hits
    cases hits

/-- Where the executions to come are covered, `RunTask` takes a task that is due. -/
theorem State.Covered.starts {s : State} {t : Task} (h : s.Covered) (hs : s.Starts t) :
    t.timeToRun ≤ s.now := by
  obtain ⟨r, k, s', hst, ht, -⟩ := hs
  have hout := State.outstanding_popTask hst
  have hready := h.due
  obtain ⟨-, ⟨hempty, -⟩ | ⟨t', ht', htop, -⟩⟩ := State.popTask_cases hst
  · simp [hempty] at ht
  · obtain rfl := Option.some.inj (ht.symm.trans ht')
    obtain ⟨hk, -⟩ := List.getElem?_eq_some_iff.mp ht
    exact due_of_top htop (by omega)

/-! The condition cannot be weakened: where the timer is set against it, the executions to
come may outrun the tasks that are due. -/

namespace State

variable {s s' : State}

/-- The state can go on to one in which `RunTask` takes a task before its time. -/
def MayStartEarly (s : State) : Prop :=
  ∃ es s' t, run step (fun _ _ => True) es s = some s' ∧ s'.Starts t ∧ s'.now < t.timeToRun

theorem MayStartEarly.cons {e : Event} (hst : step s e = some s') (h : s'.MayStartEarly) :
    s.MayStartEarly := by
  obtain ⟨es, s'', t, hrun, hs, hlt⟩ := h
  exact ⟨e :: es, s'', t, run_cons.mpr ⟨trivial, s', hst, hrun⟩, hs, hlt⟩

/-- An execution that has entered can take the top. -/
theorem popTask_top {r k : ℕ} {t : Task} (hr : s.runs[r]? = some .entered)
    (ht : s.queue[k]? = some t) (htop : ∀ u ∈ s.queue, ¬ t.Less u) :
    s.popTask r k = some { s with
      queue := s.queue.eraseIdx k
      runs := s.runs.modify r fun _ => .running t
      popped := s.popped ++ [t.id] } := by
  have hne : s.queue ≠ [] := List.ne_nil_of_mem (List.mem_of_getElem? ht)
  unfold popTask
  rw [hr]
  simp only [if_neg hne, ht, if_pos htop]

theorem starts_top {r k : ℕ} {t : Task} (hr : s.runs[r]? = some .entered)
    (ht : s.queue[k]? = some t) (htop : ∀ u ∈ s.queue, ¬ t.Less u) : s.Starts t := by
  refine ⟨r, k, _, popTask_top hr ht htop, ht, ?_⟩
  simp only [List.getElem?_modify_eq, hr]
  rfl

/-- More executions are to come than tasks are due, and not all tasks are due. -/
def Overdrawn (s : State) : Prop :=
  dueBy s.queue s.now < s.outstanding ∧ dueBy s.queue s.now < s.queue.length

/-- By induction on the tasks that are due: an execution takes one of them, or there is none
and it takes a task that is not due. -/
theorem Overdrawn.pop {due : ℕ}
    (ih : ∀ s : State, s.Overdrawn → dueBy s.queue s.now < due → s.MayStartEarly)
    (h : s.Overdrawn) (hd : dueBy s.queue s.now ≤ due) {r : ℕ}
    (hr : s.runs[r]? = some .entered) : s.MayStartEarly := by
  obtain ⟨hout, hlen⟩ := h
  have hne : s.queue ≠ [] := List.ne_nil_of_length_pos (by omega)
  obtain ⟨t, hmem, hmin, -⟩ := startTimer_min hne
  obtain ⟨k, ht⟩ := List.mem_iff_getElem?.mp hmem
  have htop : ∀ u ∈ s.queue, ¬ t.Less u := fun u hu => Int.not_lt.mpr (hmin u hu)
  have hst := popTask_top hr ht htop
  have hout' := outstanding_popTask hst
  obtain ⟨hk, -⟩ := List.getElem?_eq_some_iff.mp ht
  by_cases hdue : t.timeToRun ≤ s.now
  · refine .cons (e := .pop r k) hst (ih _ ?_ ?_)
    · have herase := dueBy_eraseIdx ht hdue
      unfold Overdrawn
      simp only [List.length_eraseIdx_of_lt hk]
      omega
    · have herase := dueBy_eraseIdx ht hdue
      simp only
      omega
  · exact ⟨[], s, t, rfl, starts_top hr ht htop, by omega⟩

theorem Overdrawn.mayStartEarly (h : s.Overdrawn) : s.MayStartEarly := by
  induction hd : dueBy s.queue s.now using Nat.strongRecOn generalizing s with
  | ind due ih =>
    have ih' : ∀ s : State, s.Overdrawn → dueBy s.queue s.now < due → s.MayStartEarly :=
      fun s hs hlt => ih _ hlt hs rfl
    by_cases hpend : 0 < s.pending
    · -- its execution enters first
      have hst : s.enter = some
          { s with pending := s.pending - 1, runs := s.runs ++ [.entered] } := if_pos hpend
      have hout := outstanding_enter hst
      refine .cons (e := .enter) hst (Overdrawn.pop ih' ?_ (Nat.le_of_eq hd) (r := s.runs.length) ?_)
      · unfold Overdrawn
        rw [hout]
        exact h
      · simp
    · have hcount : 0 < s.runs.countP fun r => !r.popped := by
        have := h.1
        unfold outstanding at this
        omega
      obtain ⟨x, hx, hpop⟩ := List.countP_pos_iff.mp hcount
      obtain ⟨r, hr⟩ := List.mem_iff_getElem?.mp hx
      cases x with
      | entered => exact Overdrawn.pop ih' h (Nat.le_of_eq hd) hr
      | running t => simp [Run.popped] at hpop

/-- Setting the timer where it may not be set. -/
theorem mayStartEarly_startTimer (hne : s.queue ≠ []) (h : ¬ s.MayArm s.queue) :
    s.startTimer.MayStartEarly := by
  obtain ⟨t, ht, hmin, heq⟩ := startTimer_min hne
  rw [heq]
  have hlen := dueBy_le_length s.queue s.now
  unfold MayArm at h
  by_cases hdue : t.timeToRun ≤ s.now
  · -- the timer expires at once, for a task that has its execution already
    have hst : ({ s with armed := some (.ofTime t.timeToRun) } : State).expire =
        some { s with armed := none, pending := s.pending + 1 } := by
      unfold expire
      simp only [Timespec.time_ofTime, if_pos hdue]
    refine .cons (e := .expire) hst (Overdrawn.mayStartEarly ?_)
    have hout : outstanding { s with armed := none, pending := s.pending + 1 } =
        s.outstanding + 1 := by
      unfold outstanding
      simp only
      omega
    unfold Overdrawn
    rw [hout]
    simp only
    omega
  · have hzero : dueBy s.queue s.now = 0 := by
      apply List.countP_eq_zero.mpr
      intro u hu
      have hle := hmin u hu
      simp only [decide_eq_true_eq]
      omega
    apply Overdrawn.mayStartEarly
    show dueBy s.queue s.now < s.outstanding ∧ dueBy s.queue s.now < s.queue.length
    omega

end State

theorem step_mayStartEarly {s s' : State} {e : Event} (h : s.Sound) (hst : step s e = some s')
    (hg : ¬ ArmsSafely s e) : s'.MayStartEarly := by
  cases e with
  | tick d => exact absurd trivial hg
  | addTask caller interval =>
    simp only [step] at hst
    split_ifs at hst
    obtain rfl := Option.some.inj hst
    unfold State.addTask
    apply State.mayStartEarly_startTimer
    · simp
    · exact hg
  | expire => exact absurd trivial hg
  | enter => exact absurd trivial hg
  | pop r k => exact absurd trivial hg
  | finish r threw =>
    obtain ⟨t, hr, hcase⟩ := State.finish_cases hst
    have hout := State.outstanding_eraseIdx (s.counter - 1) hr
    have hne : s.queue ≠ [] := by
      intro hnil
      apply hg
      simp [ArmsSafely, State.MayArm, hnil, dueBy]
    have hpos := List.length_pos_iff.mpr hne
    have hc := h.counter
    have hexec : 0 < s.executing :=
      List.countP_pos_iff.mpr ⟨_, List.mem_of_getElem? hr, rfl⟩
    obtain ⟨hzero, -⟩ | ⟨-, -, rfl⟩ | ⟨-, hnil, -⟩ := hcase
    · omega
    · apply State.mayStartEarly_startTimer
      · exact hne
      · unfold State.MayArm
        rw [hout]
        exact hg
    · exact absurd hnil hne

/-- In a run that sets the timer only where it may, `RunTask` never takes a task before its
time; and after such a run, a step that sets it elsewhere can be followed by a `RunTask`
that does. -/
theorem run_on_time {now : ℤ} {es : List Event} {s : State}
    (hrun : run step ArmsSafely es (scheduler now) = some s) :
    (∀ t, s.Starts t → t.timeToRun ≤ s.now) ∧
      ∀ e s', step s e = some s' → ¬ ArmsSafely s e → s'.MayStartEarly := by
  have hcov := run_invariant (fun _ _ _ => step_covered) hrun (scheduler_covered now)
  have hsound := run_invariant (fun _ _ _ _ hst h => step_sound hst h) hrun (scheduler_sound now)
  exact ⟨fun t ht => hcov.starts ht, fun e s' hst hg => step_mayStartEarly hsound hst hg⟩

/-- Two tasks; the first is due and its execution waits for the lock, which a third `AddTask`
gets first. The timer is set for the task that is due, and expires again. -/
def addWhileExpired : List Event :=
  [.addTask none 1, .addTask none 10, .tick 1000000, .expire, .enter]

/-- After the first execution has popped its task. -/
def secondExecution : List Event := [.addTask none 20, .expire, .enter, .pop 0 0]

theorem run_on_time_addWhileExpired :
    ∃ s, run step ArmsSafely addWhileExpired (scheduler 0) = some s ∧ s.Starts ⟨0, 1000000⟩ ∧
      (1000000 : ℤ) ≤ s.now := by
  have hrun : (run step ArmsSafely addWhileExpired (scheduler 0)).map
      (fun s => (s.runs, s.queue)) = some ([.entered], [⟨0, 1000000⟩, ⟨1, 10000000⟩]) := by
    decide +kernel
  obtain ⟨s, hs, heq⟩ := Option.map_eq_some_iff.mp hrun
  simp only [Prod.mk.injEq] at heq
  have hstarts : s.Starts ⟨0, 1000000⟩ := by
    apply State.starts_top (r := 0) (k := 0)
    · rw [heq.1]
      rfl
    · rw [heq.2]
      rfl
    · rw [heq.2]
      decide
  exact ⟨s, hs, hstarts, (run_on_time hs).1 _ hstarts⟩

/-- The task due after ten milliseconds starts after one. -/
theorem secondExecution_early :
    ∃ s t, run step (fun _ _ => True) (addWhileExpired ++ secondExecution) (scheduler 0) =
      some s ∧ s.Starts t ∧ s.now < t.timeToRun := by
  have hrun : (run step (fun _ _ => True) (addWhileExpired ++ secondExecution) (scheduler 0)).map
      (fun s => (s.runs, s.queue, s.now)) =
        some ([.running ⟨0, 1000000⟩, .entered], [⟨1, 10000000⟩, ⟨2, 21000000⟩], 1000000) := by
    decide +kernel
  obtain ⟨s, hs, heq⟩ := Option.map_eq_some_iff.mp hrun
  simp only [Prod.mk.injEq] at heq
  refine ⟨s, ⟨1, 10000000⟩, hs, ?_, ?_⟩
  · apply State.starts_top (r := 1) (k := 0)
    · rw [heq.1]
      rfl
    · rw [heq.2.1]
      rfl
    · rw [heq.2.1]
      decide
  · rw [heq.2.2]
    decide

end IoTDrive.Sched
