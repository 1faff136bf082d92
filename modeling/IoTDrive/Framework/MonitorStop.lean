import IoTDrive.Framework.Monitor

/-! The end of the directory monitor. `Stop` has no other way to wake a thread that blocks in
`read` than the event that the kernel queues when the watch is taken away; closing the
descriptor does not. So a thread that may still enter `read` must find that event, or
one before it. Once the watch has gone with the directory there is no such event. -/

namespace IoTDrive.Framework.Monitor

open Lib

variable {libs : Plugins.Libraries} {dirName : List UInt8} {s s' : State}

/-- The directory is not removed. -/
def DirStays (_ : State) : Event → Prop
  | .removeDir => False
  | _ => True

instance (s : State) (e : Event) : Decidable (DirStays s e) :=
  match e with
  | .removeDir => .isFalse id
  | .raise _ | .run | .stop | .owner | .worker _ | .interrupt => .isTrue trivial

/-- `Stop` and the thread. -/
def Event.Own : Event → Prop
  | .owner | .worker _ => True
  | _ => False

/-- The thread is on its way into `read`, or in it. -/
def State.Reading (s : State) : Prop :=
  s.worker = .loads ∧ s.notifyFd = true ∨ s.worker = .calls true ∨ s.worker = .blocked

/-- `Stop` has yet to take the watch away. -/
def State.Before (s : State) : Prop := (s.owner = .idle ∨ s.owner = .removes) ∧ s.notifyFd = true

/-- A thread that is in `read` when the watch has been taken away has an event to read. -/
structure Attended (s : State) : Prop where
  running : s.running = true → s.owner = .idle
  watched : s.Before → s.watched = true
  joins : s.owner = .joins → s.notifyFd = false
  awake : s.Reading → s.Before ∨ s.queue ≠ []

theorem init_attended (memory : List UInt8) : Attended (State.init memory) :=
  ⟨fun _ => rfl, fun _ => rfl, by simp [State.init], by simp [State.Reading, State.init]⟩

/-- A step of the thread leaves `Stop` and the watch alone. -/
theorem Attended.of_worker (h : Attended s) (hrunning : s'.running = s.running)
    (howner : s'.owner = s.owner) (hfd : s'.notifyFd = s.notifyFd)
    (hwatched : s'.watched = s.watched) (hawake : s'.Reading → s.Before ∨ s'.queue ≠ []) :
    Attended s' where
  running := by
    rw [hrunning, howner]
    exact h.running
  watched := by
    rw [State.Before, howner, hfd, hwatched]
    exact h.watched
  joins := by
    rw [howner, hfd]
    exact h.joins
  awake := by
    rw [State.Before, howner, hfd]
    exact hawake

theorem Attended.readFailed (h : Attended s) : Attended s.readFailed := by
  unfold State.readFailed
  split_ifs
  · exact h.of_worker rfl rfl rfl rfl h.awake
  · exact h.of_worker rfl rfl rfl rfl (by simp [State.Reading])

theorem Attended.monitorRun {found : Option ℕ} (h : Attended s)
    (hst : MonitorRun libs dirName s found s') : Attended s' := by
  cases hst with
  | tests hw =>
    refine h.of_worker rfl rfl rfl rfl fun hr => .inl ⟨.inl (h.running ?_), ?_⟩
    · by_contra hrun
      simp [State.Reading, hrun] at hr
    · cases hrun : s.running
      · simp [State.Reading, hrun] at hr
      · simpa [State.Reading, hrun] using hr
  | loads hw =>
    refine h.of_worker rfl rfl rfl rfl fun hr => h.awake (.inl ⟨hw, ?_⟩)
    simpa [State.Reading] using hr
  | blocks hw _ => exact h.of_worker rfl rfl rfl rfl fun _ => h.awake (.inr (.inl hw))
  | fails fd hw _ => exact h.readFailed
  | reads batch rest hw hq => exact h.of_worker rfl rfl rfl rfl (by simp [State.Reading])
  | done hw => exact h.of_worker rfl rfl rfl rfl (by simp [State.Reading])
  | handles n pending loader hw _ _ =>
    exact h.of_worker rfl rfl rfl rfl (by simp [State.Reading])
  | refuses n pending hw _ => exact h.of_worker rfl rfl rfl rfl h.awake

theorem Attended.stops (h : Attended s) (hst : Stops s s') : Attended s' := by
  have hstopped : s.owner ≠ .idle → s.running = false := fun ho => by
    by_contra hrun
    exact ho (h.running (by simpa using hrun))
  cases hst with
  | removes ho hfd =>
    have hrun := hstopped (by simp [ho])
    -- the watch is there, and its event is queued
    have hwatched := h.watched ⟨.inr ho, hfd⟩
    rw [if_pos hwatched]
    exact ⟨by simp [State.push, hrun], by simp [State.Before], by simp,
      fun _ => .inr (by simp [State.push])⟩
  | skips ho hfd =>
    have hrun := hstopped (by simp [ho])
    refine ⟨by simp [hrun], by simp [State.Before], fun _ => hfd, fun hr => .inr ?_⟩
    refine (h.awake hr).resolve_left fun hb => ?_
    rw [State.Before, hfd] at hb
    exact Bool.false_ne_true hb.2
  | closes ho =>
    have hrun := hstopped (by simp [ho])
    refine ⟨by simp [hrun], by simp [State.Before], by simp, fun hr => .inr ?_⟩
    exact (h.awake hr).resolve_left (by simp [State.Before, ho])
  | clears ho =>
    have hrun := hstopped (by simp [ho])
    refine ⟨by simp [hrun], by simp [State.Before], fun _ => rfl, fun hr => .inr ?_⟩
    refine (h.awake ?_).resolve_left (by simp [State.Before, ho])
    rcases hr with ⟨-, hr⟩ | hr
    · cases hr
    · exact .inr hr
  | joins ho hw =>
    have hrun := hstopped (by simp [ho])
    have hfd := h.joins ho
    exact ⟨by simp [hrun], by simp [State.Before, hfd], fun _ => hfd, by simp [State.Reading]⟩

theorem step_attended {e : Event} (hg : DirStays s e) (hst : step libs dirName s e = some s')
    (h : Attended s) : Attended s' := by
  cases (step_cases hst).2 with
  | raise e _ =>
    exact ⟨h.running, h.watched, h.joins, fun _ => .inr (by simp [State.push])⟩
  | removeDir _ => exact absurd hg id
  | run ho hw => exact ⟨fun _ => ho, h.watched, h.joins, by simp [State.Reading]⟩
  | rerun ho hw => exact ⟨fun _ => ho, h.watched, h.joins, h.awake⟩
  | notStarted _ _ => exact h
  | stop ho =>
    have hbefore : ∀ hfd : s.notifyFd = true, s.Before := fun hfd => ⟨.inl ho, hfd⟩
    refine ⟨by simp, fun hb => h.watched (hbefore hb.2), by simp, fun hr => ?_⟩
    exact (h.awake hr).imp_left fun hb => ⟨.inr rfl, hb.2⟩
  | owner hst => exact h.stops hst
  | worker hst => exact h.monitorRun hst
  | interrupt _ => exact h.readFailed

/-- What the thread still has to do once the flag is cleared, with the calls for the events
that it will have read. -/
def State.workerRank (dirName : List UInt8) (s : State) : ℕ :=
  match s.worker with
  | .absent | .returned => 0
  | .tests => 1
  | .notifies pending => pending.length + 2
  | .blocked => (s.queue.flatMap (FileEvent.notices dirName)).length + 3
  | .calls _ => (s.queue.flatMap (FileEvent.notices dirName)).length + 4
  | .loads => (s.queue.flatMap (FileEvent.notices dirName)).length + 5

def Owner.rank : Owner → ℕ
  | .idle => 0
  | .joins => 1
  | .clears => 2
  | .closes => 3
  | .removes => 4

def State.remaining (dirName : List UInt8) (s : State) : ℕ := s.workerRank dirName + s.owner.rank

theorem notices_ignored : FileEvent.notices dirName .ignored = [] := rfl

/-- Once `Stop` has cleared the flag, each step of the two brings the end nearer. -/
theorem remaining_lt {e : Event} (hown : e.Own) (hrun : s.running = false)
    (hst : step libs dirName s e = some s') :
    s'.terminated = true ∨ s'.remaining dirName < s.remaining dirName := by
  cases (step_cases hst).2 with
  | raise _ _ | removeDir _ | run _ _ | rerun _ _ | notStarted _ _ | stop _ | interrupt _ =>
    exact absurd hown id
  | owner hst =>
    right
    cases hst with
    | removes ho hfd =>
      have hrank : ∀ s' : State, s'.worker = s.worker →
          s'.queue.flatMap (FileEvent.notices dirName) =
            s.queue.flatMap (FileEvent.notices dirName) →
          s'.workerRank dirName = s.workerRank dirName := fun s' hw hq => by
        simp only [State.workerRank, hw, hq]
      split_ifs
      · have := hrank { s.push .ignored with watched := false, owner := .closes } rfl
          (by simp [State.push, notices_ignored])
        simp only [State.remaining, this, ho, Owner.rank]
        omega
      · have := hrank { s with watched := false, owner := .closes } rfl rfl
        simp only [State.remaining, this, ho, Owner.rank]
        omega
    | skips ho hfd => simp [State.remaining, State.workerRank, ho, Owner.rank]
    | closes ho => simp [State.remaining, State.workerRank, ho, Owner.rank]
    | clears ho => simp [State.remaining, State.workerRank, ho, Owner.rank]
    | joins ho hw =>
      rcases hw with hw | hw <;> simp [State.remaining, State.workerRank, ho, hw, Owner.rank]
  | worker hst =>
    cases hst with
    | tests hw => right; simp [State.remaining, State.workerRank, hw, hrun]
    | loads hw => right; simp [State.remaining, State.workerRank, hw]
    | blocks hw _ => right; simp [State.remaining, State.workerRank, hw]
    | fails fd hw _ =>
      right
      simp [State.readFailed, hrun, State.remaining, State.workerRank, hw]
    | reads batch rest hw hq =>
      right
      simp only [State.remaining, State.workerRank, hw, hq, List.flatMap_append,
        List.length_append]
      omega
    | done hw => right; simp [State.remaining, State.workerRank, hw]
    | handles n pending loader hw _ _ => right; simp [State.remaining, State.workerRank, hw]
    | refuses n pending hw _ => exact .inl rfl

/-- While `Stop` is at work, it or the thread can go on. -/
theorem Attended.goes_on (h : Attended s) (hlive : s.terminated = false) (ho : s.owner ≠ .idle)
    (libs : Plugins.Libraries) (dirName : List UInt8) :
    ∃ e : Event, e.Own ∧ (step libs dirName s e).isSome := by
  have hstep : ∀ e, step libs dirName s e = react libs dirName s e := fun e => by
    rw [step, if_neg (by simp [hlive])]
  have howner : (s.stop).isSome → ∃ e : Event, e.Own ∧ (step libs dirName s e).isSome := fun hs =>
    ⟨.owner, trivial, by rw [hstep]; exact hs⟩
  have hworker : (s.monitorRun libs dirName none).isSome →
      ∃ e : Event, e.Own ∧ (step libs dirName s e).isSome := fun hs =>
    ⟨.worker none, trivial, by rw [hstep]; exact hs⟩
  cases hown : s.owner with
  | idle => exact absurd hown ho
  | removes => exact howner (by rw [State.stop, hown]; dsimp only; split_ifs <;> rfl)
  | closes => exact howner (by rw [State.stop, hown]; rfl)
  | clears => exact howner (by rw [State.stop, hown]; rfl)
  | joins =>
    cases hw : s.worker with
    | absent => exact howner (by simp [State.stop, hown, hw])
    | returned => exact howner (by simp [State.stop, hown, hw])
    | tests => exact hworker (by rw [State.monitorRun, hw]; rfl)
    | loads => exact hworker (by rw [State.monitorRun, hw]; rfl)
    | calls fd => exact hworker (by rw [State.monitorRun, hw]; rfl)
    | blocked =>
      have hq : s.queue ≠ [] :=
        (h.awake (.inr (.inr hw))).resolve_left (by simp [State.Before, hown])
      apply hworker
      rw [State.monitorRun, hw]
      simp only [if_neg hq, if_neg (readEvents_ne_nil hq), monitorBatch_fill, Option.map_some,
        Option.isSome_some]
    | notifies pending =>
      apply hworker
      cases pending with
      | nil => rw [State.monitorRun, hw]; rfl
      | cons n pending =>
        rw [State.monitorRun, hw]
        cases hcall : s.call libs n none with
        | error what => simp [hcall]
        | ok loader => cases hgone : loader.misused <;> simp [hcall, hgone]

/-- `Stop` and the thread never set the flag. -/
theorem running_own {e : Event} (hown : e.Own) (hst : step libs dirName s e = some s') :
    s'.running = s.running := by
  cases (step_cases hst).2 with
  | raise _ _ | removeDir _ | run _ _ | rerun _ _ | notStarted _ _ | stop _ | interrupt _ =>
    exact absurd hown id
  | owner hst =>
    cases hst with
    | removes _ _ => split_ifs <;> rfl
    | skips _ _ | closes _ | clears _ | joins _ _ => rfl
  | worker hst =>
    cases hst with
    | fails _ _ _ =>
      rw [State.readFailed]
      split_ifs <;> rfl
    | tests _ | loads _ | blocks _ _ | reads _ _ _ _ | done _ | handles _ _ _ _ _ _
    | refuses _ _ _ _ => rfl

theorem own_dirStays {e : Event} (hown : e.Own) (s : State) : DirStays s e := by
  cases e <;> first | exact trivial | exact absurd hown id

theorem run_dirStays {own : List Event} (hown : ∀ e ∈ own, e.Own)
    (h : run (step libs dirName) (fun _ _ => True) own s = some s') :
    run (step libs dirName) DirStays own s = some s' := by
  induction own generalizing s with
  | nil => exact h
  | cons e own ih =>
    obtain ⟨-, m, hm, hrest⟩ := run_cons.mp h
    exact run_cons.mpr ⟨own_dirStays (hown e (by simp)) s, m, hm,
      ih (fun e' he => hown e' (List.mem_cons_of_mem _ he)) hrest⟩

/-- Steps of `Stop` and the thread alone come to an end. -/
theorem length_le_remaining {es : List Event} (hes : ∀ e ∈ es, e.Own) (hrun : s.running = false)
    (h : run (step libs dirName) (fun _ _ => True) es s = some s') :
    es.length ≤ s.remaining dirName + 1 := by
  induction es generalizing s with
  | nil => exact Nat.zero_le _
  | cons e es ih =>
    obtain ⟨-, m, hm, hrest⟩ := run_cons.mp h
    have hown := hes e (by simp)
    have hown' : ∀ e' ∈ es, e'.Own := fun e' he => hes e' (List.mem_cons_of_mem _ he)
    have hrun' : m.running = false := (running_own hown hm).trans hrun
    rw [List.length_cons]
    rcases remaining_lt hown hrun hm with hend | hlt
    · -- the program has ended
      cases es with
      | nil => simp
      | cons e' es =>
        obtain ⟨-, m', hm', -⟩ := run_cons.mp hrest
        rw [step, if_pos hend] at hm'
        cases hm'
    · have := ih hown' hrun' hrest
      omega

/-- As long as the directory is there, `Stop` ends: the steps that it and the thread take by
themselves are bounded, and when neither can take one, `Stop` has returned, or a call of the
loader has ended the program. -/
theorem stop_ends (libs : Plugins.Libraries) (dirName memory : List UInt8) (es : List Event)
    (s : State)
    (h : run (step libs dirName) DirStays es (State.init memory) = some s)
    (ho : s.owner ≠ .idle) (own : List Event) (hown : ∀ e ∈ own, e.Own) (s' : State)
    (hrun : run (step libs dirName) (fun _ _ => True) own s = some s') :
    own.length ≤ s.remaining dirName + 1 ∧
      ((∀ e : Event, e.Own → step libs dirName s' e = none) →
        s'.owner = .idle ∨ s'.terminated = true) := by
  have hs : Attended s := run_invariant (fun _ _ _ hg hst hi => step_attended hg hst hi) h
    (init_attended memory)
  have hs' : Attended s' := run_invariant (fun _ _ _ hg hst hi => step_attended hg hst hi)
    (run_dirStays hown hrun) hs
  have hstopped : s.running = false := by
    by_contra hr
    exact ho (hs.running (by simpa using hr))
  refine ⟨length_le_remaining hown hstopped hrun, fun hnone => ?_⟩
  by_contra hcon
  obtain ⟨hidle, hend⟩ := not_or.mp hcon
  obtain ⟨e, he, hsome⟩ := hs'.goes_on (by simpa using hend) hidle libs dirName
  rw [hnone e he] at hsome
  cases hsome

/-- The thread waits in `read` when `Stop` begins. -/
def stopsReader : List Event := [.run, .worker none, .worker none, .worker none, .stop]

def stopSteps : List Event :=
  [.owner, .worker none, .owner, .owner, .worker none, .worker none, .owner]

theorem stop_ends_reader :
    ∃ s s', run (step ⟨fun _ => [], fun _ => true⟩ []) DirStays stopsReader
        (State.init (List.replicate bufferSize 0)) = some s ∧ s.owner = .removes ∧
      run (step ⟨fun _ => [], fun _ => true⟩ []) (fun _ _ => True) stopSteps s = some s' ∧
      s'.owner = .idle ∧
      stopSteps.length ≤ s.remaining [] + 1 := by
  have hrun : (run (step ⟨fun _ => [], fun _ => true⟩ []) DirStays stopsReader
      (State.init (List.replicate bufferSize 0))).map State.owner = some .removes := by
    decide +kernel
  have hboth : (run (step ⟨fun _ => [], fun _ => true⟩ []) (fun _ _ => True)
      (stopsReader ++ stopSteps) (State.init (List.replicate bufferSize 0))).map State.owner =
        some .idle := by
    decide +kernel
  obtain ⟨s, hs, ho⟩ := Option.map_eq_some_iff.mp hrun
  obtain ⟨s', hs', ho'⟩ := Option.map_eq_some_iff.mp hboth
  rw [run_append, run_mono (fun _ _ _ => trivial) hs] at hs'
  have hown : ∀ e ∈ stopSteps, e.Own := by simp [stopSteps, Event.Own]
  exact ⟨s, s', hs, ho, hs', ho', (stop_ends ⟨fun _ => [], fun _ => true⟩ [] _ stopsReader s hs
    (by simp [ho]) stopSteps hown s' hs').1⟩

/-- The thread has read that the watch is gone; nothing wakes it up any more. -/
def removedFirst : List Event :=
  [.run, .worker none, .worker none, .worker none, .removeDir, .worker none, .worker none,
    .worker none, .worker none, .worker none, .stop, .owner, .owner, .owner]

example : (run (step ⟨fun _ => [], fun _ => true⟩ []) (fun _ _ => True) removedFirst
    (State.init (List.replicate bufferSize 0))).map
      (fun s => (s.owner, s.worker, s.queue.length)) = some (.joins, .blocked, 0) := by
  decide +kernel

end IoTDrive.Framework.Monitor
