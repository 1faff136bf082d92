import IoTDrive.Lib.Transition
import Mathlib.Data.Int.Notation
import Mathlib.Data.List.Basic

/-! The scheduler of the framework: a queue of tasks by the time they are due, one timer armed
for the earliest of them, and the executions of `RunTask` that its expiries start, each on
a thread of its own. `AddTask` and the two critical sections of `RunTask` run under
`m_mtx` and are one step each; in between, the task of a `RunTask` runs and may itself add
tasks, as `AsyncInjection::Reschedule` does. `timer_settime` is taken to succeed and to
arm the timer. -/

namespace IoTDrive.Sched

/-- `Scheduler::Task`, numbered by the call of `AddTask` that made it. Times are in
nanoseconds. -/
structure Task where
  id : ℕ
  timeToRun : ℤ
  deriving DecidableEq, Repr

/-- `operator<`: the task that is due first is the greatest. -/
def Task.Less (a b : Task) : Prop := a.timeToRun > b.timeToRun

instance (a b : Task) : Decidable (a.Less b) := inferInstanceAs (Decidable (_ > _))

/-- `it_value` of the timer. -/
structure Timespec where
  sec : ℤ
  nsec : ℤ
  deriving DecidableEq, Repr

namespace Timespec

/-- The seconds as `to_time_t` cuts them off, and the rest. -/
def ofTime (t : ℤ) : Timespec := ⟨t.tdiv 1000000000, t - t.tdiv 1000000000 * 1000000000⟩

def time (its : Timespec) : ℤ := its.sec * 1000000000 + its.nsec

theorem time_ofTime (t : ℤ) : (ofTime t).time = t := by
  simp only [time, ofTime]
  omega

end Timespec

/-- An execution of `RunTask`: before its first critical section, or with the task that it
has popped. -/
inductive Run where
  | entered
  | running (task : Task)
  deriving DecidableEq, Repr

/-- The execution has popped a task. -/
def Run.popped : Run → Bool
  | entered => false
  | running _ => true

/-- `Scheduler` with its timer. `pending` counts the expiries whose call of `RunTask` has not
begun. The number of tasks added and the ids popped so far are kept for the statements; no
step reads `popped`. -/
structure State where
  queue : List Task
  counter : ℕ
  armed : Option Timespec
  pending : ℕ
  runs : List Run
  now : ℤ
  added : ℕ
  popped : List ℕ

/-- A caller of `AddTask` is a client, or the task that an execution of `RunTask` runs. A task
that throws ends its execution like one that returns. -/
inductive Event where
  | tick (d : ℕ)
  | addTask (caller : Option ℕ) (interval : ℤ)
  | expire
  | enter
  | pop (r k : ℕ)
  | finish (r : ℕ) (threw : Bool)
  deriving DecidableEq, Repr

namespace State

def startTimer (s : State) : State :=
  match (s.queue.map Task.timeToRun).min? with
  | none => s
  | some t => { s with armed := some (.ofTime t) }

/-- The interval is in milliseconds. -/
def addTask (s : State) (interval : ℤ) : State :=
  startTimer { s with
    queue := s.queue ++ [⟨s.added, s.now + interval * 1000000⟩]
    counter := s.counter + 1
    added := s.added + 1 }

/-- Whether a caller is there to call. -/
def canCall (s : State) : Option ℕ → Bool
  | none => true
  | some r => (s.runs[r]?.map Run.popped).getD false

def expire (s : State) : Option State :=
  match s.armed with
  | none => none
  | some its =>
    if its.time ≤ s.now then some { s with armed := none, pending := s.pending + 1 } else none

/-- `ThreadFunc` calls `RunTask`. -/
def enter (s : State) : Option State :=
  if 0 < s.pending then
    some { s with pending := s.pending - 1, runs := s.runs ++ [.entered] }
  else none

/-- The first critical section of `RunTask`. Of tasks due at one time any may be on top. -/
def popTask (s : State) (r k : ℕ) : Option State :=
  match s.runs[r]? with
  | some .entered =>
    if s.queue = [] then some { s with runs := s.runs.eraseIdx r }
    else
      match s.queue[k]? with
      | none => none
      | some t =>
        if ∀ u ∈ s.queue, ¬ t.Less u then
          some { s with
            queue := s.queue.eraseIdx k
            runs := s.runs.modify r fun _ => .running t
            popped := s.popped ++ [t.id] }
        else none
  | _ => none

/-- The second critical section of `RunTask`. -/
def finish (s : State) (r : ℕ) : Option State :=
  match s.runs[r]? with
  | some (.running _) =>
    let s' := { s with counter := s.counter - 1, runs := s.runs.eraseIdx r }
    if s'.counter = 0 then some s'
    else if s'.queue ≠ [] then some s'.startTimer
    else some s'
  | _ => none

section Cases

variable {s s' : State} {r k : ℕ}

theorem expire_cases (h : s.expire = some s') :
    ∃ its, s.armed = some its ∧ its.time ≤ s.now ∧
      s' = { s with armed := none, pending := s.pending + 1 } := by
  unfold expire at h
  split at h
  · cases h
  · next its harm =>
    split_ifs at h with hdue
    exact ⟨its, harm, hdue, (Option.some.inj h).symm⟩

theorem enter_cases (h : s.enter = some s') :
    0 < s.pending ∧ s' = { s with pending := s.pending - 1, runs := s.runs ++ [.entered] } := by
  unfold enter at h
  split_ifs at h with hpos
  exact ⟨hpos, (Option.some.inj h).symm⟩

/-- An execution finds the queue empty and returns, or it takes the top. -/
theorem popTask_cases (h : s.popTask r k = some s') :
    s.runs[r]? = some .entered ∧
      (s.queue = [] ∧ s' = { s with runs := s.runs.eraseIdx r } ∨
        ∃ t, s.queue[k]? = some t ∧ (∀ u ∈ s.queue, ¬ t.Less u) ∧
          s' = { s with
            queue := s.queue.eraseIdx k
            runs := s.runs.modify r fun _ => .running t
            popped := s.popped ++ [t.id] }) := by
  unfold popTask at h
  split at h
  · next hr =>
    refine ⟨hr, ?_⟩
    split_ifs at h with hempty
    · exact .inl ⟨hempty, (Option.some.inj h).symm⟩
    · split at h
      · cases h
      · next t ht =>
        split_ifs at h with htop
        exact .inr ⟨t, ht, htop, (Option.some.inj h).symm⟩
  · cases h

/-- An execution ends; where tasks are left, it sets the timer. -/
theorem finish_cases (h : s.finish r = some s') :
    ∃ t, s.runs[r]? = some (.running t) ∧
      let ended := { s with counter := s.counter - 1, runs := s.runs.eraseIdx r }
      (s.counter - 1 = 0 ∧ s' = ended ∨
        s.counter - 1 ≠ 0 ∧ s.queue ≠ [] ∧ s' = ended.startTimer ∨
        s.counter - 1 ≠ 0 ∧ s.queue = [] ∧ s' = ended) := by
  unfold finish at h
  split at h
  · next t hr =>
    refine ⟨t, hr, ?_⟩
    simp only at h
    split_ifs at h with hzero hne
    · exact .inl ⟨hzero, (Option.some.inj h).symm⟩
    · exact .inr (.inl ⟨hzero, hne, (Option.some.inj h).symm⟩)
    · exact .inr (.inr ⟨hzero, not_not.mp hne, (Option.some.inj h).symm⟩)
  · cases h

end Cases

end State

/-- The constructor. -/
def scheduler (now : ℤ) : State where
  queue := []
  counter := 0
  armed := none
  pending := 0
  runs := []
  now := now
  added := 0
  popped := []

def step (s : State) : Event → Option State
  | .tick d => some { s with now := s.now + d }
  | .addTask caller interval => if s.canCall caller then some (s.addTask interval) else none
  | .expire => s.expire
  | .enter => s.enter
  | .pop r k => s.popTask r k
  | .finish r _ => s.finish r

end IoTDrive.Sched
