import IoTDrive.Lib.Transition
import Mathlib.Data.List.Basic
import Mathlib.Logic.Function.Basic
import Mathlib.Tactic.SplitIfs

/-! The thread pool of the framework: one controlling thread that calls the public
functions, and the workers. A step is a call, one statement of the call in progress, or one
statement of a worker; the steps come in any order. A push, a pop, a semaphore operation
and the body of `PauseThreadTask` up to its wait are one step each, because each is done
under its own mutex. Every worker ever started stays in `workers` under the position that
`threads` refers to, so that a recycled id has its old and its new worker apart. -/

namespace IoTDrive.Pool

/-- `ThreadPool::Priority`. -/
inductive Priority where
  | low
  | medium
  | high
  deriving DecidableEq, Repr

/-- `ThreadPool::InnerPriority`. -/
inductive InnerPriority where
  | endPoolRun
  | ilow
  | imedium
  | ihigh
  | critical
  deriving DecidableEq, Repr

def InnerPriority.value : InnerPriority → ℕ
  | .endPoolRun => 0
  | .ilow => 1
  | .imedium => 2
  | .ihigh => 3
  | .critical => 4

/-- The cast of `AddTask`. -/
def Priority.inner : Priority → InnerPriority
  | .low => .ilow
  | .medium => .imedium
  | .high => .ihigh

/-- What a task runs: something submitted through `AddTask`, or one of the pool's own two
functions. -/
inductive Job where
  | user (id : ℕ)
  | pauseThreadTask
  | endThreadTask
  deriving DecidableEq, Repr

def Job.isUser : Job → Bool
  | .user _ => true
  | _ => false

/-- `ThreadPool::TPTask`. Only the pool's own tasks are critical. -/
structure TPTask where
  task : Job
  priority : InnerPriority
  timeCreated : ℕ
  ranked : priority = .critical ↔ task.isUser = false
  deriving DecidableEq

namespace TPTask

def user (id : ℕ) (pr : Priority) (now : ℕ) : TPTask :=
  ⟨.user id, pr.inner, now, by cases pr <;> simp [Priority.inner, Job.isUser]⟩

def pauseThread (now : ℕ) : TPTask := ⟨.pauseThreadTask, .critical, now, by simp [Job.isUser]⟩

def endThread (now : ℕ) : TPTask := ⟨.endThreadTask, .critical, now, by simp [Job.isUser]⟩

/-- `operator<`: of two tasks of one priority the newer one is the greater. -/
def Less (a b : TPTask) : Prop :=
  (a.timeCreated < b.timeCreated ∧ a.priority = b.priority) ∨ a.priority.value < b.priority.value

instance (a b : TPTask) : Decidable (Less a b) := inferInstanceAs (Decidable (_ ∨ _))

end TPTask

/-- Where a worker is in `ThreadRunTask`. -/
inductive Phase where
  /-- in `m_pq.Pop` -/
  | loop
  /-- between `Pop` and `Run` -/
  | taken (task : Job)
  /-- in a submitted task -/
  | running (id : ℕ)
  /-- in the wait of `PauseThreadTask`; a spurious wake-up only tests its predicate again -/
  | waiting (notified : Bool)
  /-- `m_running` is false, the loop is over -/
  | left
  /-- the id is in `m_deleted_threads` -/
  | done
  /-- the thread can be joined -/
  | exited
  deriving DecidableEq, Repr

namespace Phase

/-- In the loop, with no end task taken. -/
def live : Phase → Bool
  | taken .endThreadTask | left | done | exited => false
  | _ => true

/-- The worker has left its loop and reported its id. -/
def finished : Phase → Bool
  | done | exited => true
  | _ => false

/-- The worker is in its loop. -/
def inLoop : Phase → Bool
  | left | done | exited => false
  | _ => true

def isWaiting : Phase → Bool
  | waiting _ => true
  | _ => false

/-- A submitted task is popped and not begun. -/
def unstarted : Phase → Bool
  | taken (.user _) => true
  | _ => false

/-- A pause task is popped and not begun. -/
def holdsPause : Phase → Bool
  | taken .pauseThreadTask => true
  | _ => false

/-- The worker is in `Pop`. -/
def inPop : Phase → Bool
  | loop => true
  | _ => false

/-- `notify_all` on the condition variable of `PauseThreadTask`. -/
def notify : Phase → Phase
  | waiting _ => waiting true
  | p => p

end Phase

/-- A thread that runs `ThreadRunTask` with its id. -/
structure Worker where
  tid : ℕ
  phase : Phase
  deriving DecidableEq, Repr

/-- Where the controlling thread is. `left` counts the rounds left of the loop it is in,
`target` is the argument of `SetNumThreads`. -/
inductive Ctl where
  | idle
  /-- first loop of `Pause`, after `i` pushes -/
  | pausing (i : ℕ)
  /-- second loop of `Pause`, after `i` acquisitions -/
  | acquiring (i : ℕ)
  /-- `RemoveThreadsFromPool` of `SetNumThreads` -/
  | ending (left target : ℕ)
  /-- head of the while loop of `AddThreadsToPool` -/
  | growing (left target : ℕ)
  /-- body of the while loop: `m_deleted_threads.Pop` and the assignment -/
  | popping (left target : ℕ)
  /-- the assignment joins the thread that it replaces -/
  | joining (worker left target : ℕ)
  /-- for loop of `AddThreadsToPool` -/
  | spawning (left target : ℕ)
  /-- `emplace` found the key taken and joins the thread it made -/
  | discarding (worker left target : ℕ)
  /-- `m_threads.at` threw -/
  | threw
  /-- `RemoveThreadsFromPool` of the destructor -/
  | destroying (left : ℕ)
  /-- the destructor of `m_threads` -/
  | joinAll
  | destroyed
  deriving DecidableEq, Repr

/-- `ThreadPool` with its threads. `frozen` tells that a `Pause` has returned and no
`Resume` was called since; no step reads it. -/
structure State where
  pq : List TPTask
  deletedThreads : List ℕ
  threads : ℕ → Option ℕ
  totalThreads : ℕ
  tid : ℕ
  paused : Bool
  pauseSem : ℕ
  workers : List Worker
  ctl : Ctl
  frozen : Bool

inductive Call where
  | addTask (id : ℕ) (pr : Priority) (now : ℕ)
  | pause
  | resume
  | setNumThreads (n : ℕ)
  | destroy
  deriving DecidableEq, Repr

/-- `now` is what the clock shows. `k` is the position of the task that `Pop` hands out:
among tasks none of which is the greater, `std::priority_queue` may hand out any. -/
inductive Event where
  | call (c : Call)
  | control (now : ℕ)
  | pop (i k : ℕ)
  | advance (i : ℕ)
  deriving DecidableEq, Repr

namespace State

def push (s : State) (t : TPTask) : State := { s with pq := s.pq ++ [t] }

/-- A thread that runs `ThreadRunTask` is made. -/
def spawn (s : State) (tid : ℕ) : State := { s with workers := s.workers ++ [⟨tid, .loop⟩] }

def setPhase (s : State) (i : ℕ) (p : Phase) : State :=
  { s with workers := s.workers.modify i fun w => { w with phase := p } }

/-- A worker has exited. -/
def Joined (s : State) (i : ℕ) : Prop := ∀ w ∈ s.workers[i]?, w.phase = .exited

/-- Every worker that `m_threads` owns has exited. -/
def AllJoined (s : State) : Prop :=
  ∀ p ∈ s.workers.zipIdx, s.threads p.1.tid = some p.2 → p.1.phase = .exited

instance (s : State) (i : ℕ) : Decidable (s.Joined i) :=
  inferInstanceAs (Decidable (∀ w ∈ s.workers[i]?, _))

instance (s : State) : Decidable s.AllJoined :=
  inferInstanceAs (Decidable (∀ p ∈ s.workers.zipIdx, _))

/-- Workers in their loop that have not taken an end task. -/
def live (s : State) : ℕ := s.workers.countP fun w => w.phase.live

/-- Workers inside a pause task. -/
def waiting (s : State) : ℕ := s.workers.countP fun w => w.phase.isWaiting

/-- Workers that have popped a submitted task and not begun it. -/
def unstarted (s : State) : ℕ := s.workers.countP fun w => w.phase.unstarted

/-- Workers that have popped a pause task and not begun it. -/
def held (s : State) : ℕ := s.workers.countP fun w => w.phase.holdsPause

/-- End tasks in the queue. -/
def ends (s : State) : ℕ := s.pq.countP fun t => t.task == .endThreadTask

/-- Pause tasks in the queue. -/
def pauses (s : State) : ℕ := s.pq.countP fun t => t.task == .pauseThreadTask

/-! ### The calls -/

/-- The predicate of the wait in `PauseThreadTask` is tested. -/
def afterWait (s : State) : Phase := if s.paused then .waiting false else .loop

def addTask (s : State) (id : ℕ) (pr : Priority) (now : ℕ) : State := s.push (.user id pr now)

def pause (s : State) : State := { s with paused := true, ctl := .pausing 0 }

def resume (s : State) : State :=
  { s with
    paused := false
    frozen := false
    workers := s.workers.map fun w => { w with phase := w.phase.notify } }

def setNumThreads (s : State) (n : ℕ) : State :=
  if s.totalThreads < n then { s with ctl := .growing (n - s.totalThreads) n }
  else { s with ctl := .ending (s.totalThreads - n) n }

/-- The destructor. -/
def destroy (s : State) : State := { s with ctl := .destroying s.totalThreads }

def call (s : State) : Call → State
  | .addTask id pr now => s.addTask id pr now
  | .pause => s.pause
  | .resume => s.resume
  | .setNumThreads n => s.setNumThreads n
  | .destroy => s.destroy

/-- The last statement of `SetNumThreads`. -/
def resized (s : State) (target : ℕ) : State :=
  { s with totalThreads := target, ctl := .idle }

/-- One round of the while loop of `AddThreadsToPool`. The thread is made before `at` is
called. -/
def recycle (s : State) (id : ℕ) (rest : List ℕ) (left target : ℕ) : State :=
  match s.threads id with
  | none => { s.spawn id with deletedThreads := rest, ctl := .threw }
  | some w =>
    { s.spawn id with
      deletedThreads := rest
      threads := Function.update s.threads id (some s.workers.length)
      ctl := .joining w (left - 1) target }

/-- One round of the for loop of `AddThreadsToPool`. -/
def emplace (s : State) (left target : ℕ) : State :=
  match s.threads s.tid with
  | none =>
    { s.spawn s.tid with
      threads := Function.update s.threads s.tid (some s.workers.length)
      tid := s.tid + 1
      ctl := .spawning left target }
  | some _ =>
    { s.spawn s.tid with
      tid := s.tid + 1
      ctl := .discarding s.workers.length left target }

/-- One statement of the call in progress; nothing where it blocks. -/
def control (s : State) (now : ℕ) : Option State :=
  match s.ctl with
  | .idle | .threw | .destroyed => none
  | .pausing i =>
    if i < s.totalThreads then some { s.push (.pauseThread now) with ctl := .pausing (i + 1) }
    else some { s with ctl := .acquiring 0 }
  | .acquiring i =>
    if i < s.totalThreads then
      if 0 < s.pauseSem then some { s with pauseSem := s.pauseSem - 1, ctl := .acquiring (i + 1) }
      else none
    else some { s with ctl := .idle, frozen := true }
  | .ending 0 target => some (s.resized target)
  | .ending (left + 1) target => some { s.push (.endThread now) with ctl := .ending left target }
  | .growing left target =>
    if s.deletedThreads ≠ [] ∧ 0 < left then some { s with ctl := .popping left target }
    else some { s with ctl := .spawning left target }
  | .popping left target =>
    match s.deletedThreads with
    | [] => none
    | id :: rest => some (s.recycle id rest left target)
  | .joining w left target =>
    if s.Joined w then some { s with ctl := .growing left target } else none
  | .spawning 0 target => some (s.resized target)
  | .spawning (left + 1) target => some (s.emplace left target)
  | .discarding w left target =>
    if s.Joined w then some { s with ctl := .spawning left target } else none
  | .destroying 0 => some { s with ctl := .joinAll }
  | .destroying (left + 1) => some { s.push (.endThread now) with ctl := .destroying left }
  | .joinAll => if s.AllJoined then some { s with ctl := .destroyed } else none

/-! ### The workers -/

/-- `m_pq.Pop` of a worker in its loop. -/
def pop (s : State) (i k : ℕ) : Option State :=
  match s.workers[i]?, s.pq[k]? with
  | some w, some t =>
    if w.phase = .loop ∧ ∀ u ∈ s.pq, ¬ t.Less u then
      some { s.setPhase i (.taken t.task) with pq := s.pq.eraseIdx k }
    else none
  | _, _ => none

/-- One statement of a worker that is not in `Pop`; nothing where it blocks. -/
def advance (s : State) (i : ℕ) : Option State :=
  match s.workers[i]? with
  | none => none
  | some w =>
    match w.phase with
    | .taken (.user id) => some (s.setPhase i (.running id))
    | .taken .pauseThreadTask =>
      some { s.setPhase i s.afterWait with pauseSem := s.pauseSem + 1 }
    | .taken .endThreadTask => some (s.setPhase i .left)
    | .running _ => some (s.setPhase i .loop)
    | .waiting true => some (s.setPhase i s.afterWait)
    | .left => some { s.setPhase i .done with deletedThreads := s.deletedThreads ++ [w.tid] }
    | .done => some (s.setPhase i .exited)
    | .loop | .waiting false | .exited => none

end State

/-- The constructor, before its first statement. -/
def threadPool (n : ℕ) : State where
  pq := []
  deletedThreads := []
  threads := fun _ => none
  totalThreads := n
  tid := 0
  paused := false
  pauseSem := 0
  workers := []
  ctl := .growing n n
  frozen := false

/-- A call is made between calls only. -/
def step (s : State) : Event → Option State
  | .call c => if s.ctl = .idle then some (s.call c) else none
  | .control now => s.control now
  | .pop i k => s.pop i k
  | .advance i => s.advance i

/-! ### What a step can do -/

namespace State

variable {s s' : State} {i k now : ℕ}

theorem pop_cases (h : s.pop i k = some s') : ∃ w t, s.workers[i]? = some w ∧
    s.pq[k]? = some t ∧ w.phase = .loop ∧ (∀ u ∈ s.pq, ¬ t.Less u) ∧
      s' = { s.setPhase i (.taken t.task) with pq := s.pq.eraseIdx k } := by
  unfold pop at h
  split at h
  · next w t hw ht =>
    split_ifs at h with hc
    exact ⟨w, t, hw, ht, hc.1, hc.2, (Option.some.inj h).symm⟩
  · cases h

/-- The statements of a worker outside `Pop`, by where it is. -/
inductive Advances (s : State) (i : ℕ) (w : Worker) : State → Prop where
  | begins (id : ℕ) (h : w.phase = .taken (.user id)) : Advances s i w (s.setPhase i (.running id))
  | pauses (h : w.phase = .taken .pauseThreadTask) :
    Advances s i w { s.setPhase i s.afterWait with pauseSem := s.pauseSem + 1 }
  | ends (h : w.phase = .taken .endThreadTask) : Advances s i w (s.setPhase i .left)
  | returns (id : ℕ) (h : w.phase = .running id) : Advances s i w (s.setPhase i .loop)
  | wakes (h : w.phase = .waiting true) : Advances s i w (s.setPhase i s.afterWait)
  | reports (h : w.phase = .left) : Advances s i w
      { s.setPhase i .done with deletedThreads := s.deletedThreads ++ [w.tid] }
  | exits (h : w.phase = .done) : Advances s i w (s.setPhase i .exited)

theorem advance_cases (h : s.advance i = some s') :
    ∃ w, s.workers[i]? = some w ∧ Advances s i w s' := by
  unfold advance at h
  split at h
  · cases h
  · next w hw =>
    refine ⟨w, hw, ?_⟩
    split at h
    case h_8 | h_9 | h_10 => cases h
    all_goals
      obtain rfl := Option.some.inj h
      constructor <;> assumption

/-- The statements of the controlling thread, by where it is. -/
inductive Controls (s : State) (now : ℕ) : State → Prop where
  | pushPause (i : ℕ) (hctl : s.ctl = .pausing i) (hi : i < s.totalThreads) :
    Controls s now { s.push (.pauseThread now) with ctl := .pausing (i + 1) }
  | pushed (i : ℕ) (hctl : s.ctl = .pausing i) (hi : ¬ i < s.totalThreads) :
    Controls s now { s with ctl := .acquiring 0 }
  | acquire (i : ℕ) (hctl : s.ctl = .acquiring i) (hi : i < s.totalThreads)
    (hsem : 0 < s.pauseSem) :
    Controls s now { s with pauseSem := s.pauseSem - 1, ctl := .acquiring (i + 1) }
  | pauseReturns (i : ℕ) (hctl : s.ctl = .acquiring i) (hi : ¬ i < s.totalThreads) :
    Controls s now { s with ctl := .idle, frozen := true }
  | pushEnd (left target : ℕ) (hctl : s.ctl = .ending (left + 1) target) :
    Controls s now { s.push (.endThread now) with ctl := .ending left target }
  | ended (target : ℕ) (hctl : s.ctl = .ending 0 target) : Controls s now (s.resized target)
  | seeDeleted (left target : ℕ) (hctl : s.ctl = .growing left target)
    (hc : s.deletedThreads ≠ [] ∧ 0 < left) : Controls s now { s with ctl := .popping left target }
  | seeNone (left target : ℕ) (hctl : s.ctl = .growing left target)
    (hc : ¬ (s.deletedThreads ≠ [] ∧ 0 < left)) :
    Controls s now { s with ctl := .spawning left target }
  | recycle (left target id : ℕ) (rest : List ℕ) (hctl : s.ctl = .popping left target)
    (hdel : s.deletedThreads = id :: rest) : Controls s now (s.recycle id rest left target)
  | joined (w left target : ℕ) (hctl : s.ctl = .joining w left target) (hj : s.Joined w) :
    Controls s now { s with ctl := .growing left target }
  | emplace (left target : ℕ) (hctl : s.ctl = .spawning (left + 1) target) :
    Controls s now (s.emplace left target)
  | spawned (target : ℕ) (hctl : s.ctl = .spawning 0 target) : Controls s now (s.resized target)
  | discarded (w left target : ℕ) (hctl : s.ctl = .discarding w left target) (hj : s.Joined w) :
    Controls s now { s with ctl := .spawning left target }
  | pushLast (left : ℕ) (hctl : s.ctl = .destroying (left + 1)) :
    Controls s now { s.push (.endThread now) with ctl := .destroying left }
  | pushedLast (hctl : s.ctl = .destroying 0) : Controls s now { s with ctl := .joinAll }
  | allJoined (hctl : s.ctl = .joinAll) (hj : s.AllJoined) :
    Controls s now { s with ctl := .destroyed }

theorem control_cases (h : s.control now = some s') : Controls s now s' := by
  unfold control at h
  split at h
  case h_1 | h_2 | h_3 => cases h
  case h_4 i hctl =>
    split_ifs at h with hi <;> obtain rfl := Option.some.inj h
    · exact .pushPause i hctl hi
    · exact .pushed i hctl hi
  case h_5 i hctl =>
    split_ifs at h with hi hsem <;> obtain rfl := Option.some.inj h
    · exact .acquire i hctl hi hsem
    · exact .pauseReturns i hctl hi
  case h_6 target hctl => exact Option.some.inj h ▸ .ended target hctl
  case h_7 left target hctl => exact Option.some.inj h ▸ .pushEnd left target hctl
  case h_8 left target hctl =>
    split_ifs at h with hc <;> obtain rfl := Option.some.inj h
    · exact .seeDeleted left target hctl hc
    · exact .seeNone left target hctl hc
  case h_9 left target hctl =>
    split at h
    · cases h
    · next id rest hdel => exact Option.some.inj h ▸ .recycle left target id rest hctl hdel
  case h_10 w left target hctl =>
    split_ifs at h with hj
    exact Option.some.inj h ▸ .joined w left target hctl hj
  case h_11 target hctl => exact Option.some.inj h ▸ .spawned target hctl
  case h_12 left target hctl => exact Option.some.inj h ▸ .emplace left target hctl
  case h_13 w left target hctl =>
    split_ifs at h with hj
    exact Option.some.inj h ▸ .discarded w left target hctl hj
  case h_14 hctl => exact Option.some.inj h ▸ .pushedLast hctl
  case h_15 left hctl => exact Option.some.inj h ▸ .pushLast left hctl
  case h_16 hctl =>
    split_ifs at h with hj
    exact Option.some.inj h ▸ .allJoined hctl hj

/-- What a step does to the workers: nothing, a new one, one that goes on, or the wake-up of
those inside a pause task. A worker falls asleep only in a paused pool, and begins only a
task that it has popped. -/
inductive WorkersAfter (s s' : State) : Prop where
  | same (hs : s'.workers = s.workers) (hp : s'.paused = false → s.paused = false)
  | spawn (id : ℕ) (hs : s'.workers = (s.spawn id).workers) (hp : s'.paused = s.paused)
  | move (i : ℕ) (w : Worker) (p : Phase) (hw : s.workers[i]? = some w)
    (hs : s'.workers = (s.setPhase i p).workers) (hp : s'.paused = s.paused)
    (hsleep : p = .waiting false → s.paused = true)
    (hbegin : ∀ id, p = .running id → w.phase = .taken (.user id))
  | resume (hs : s' = s.resume)

theorem workersAfter_call (c : Call) : WorkersAfter s (s.call c) := by
  cases c with
  | addTask id pr now => exact .same rfl fun h => h
  | pause => exact .same rfl fun h => absurd h (by simp [call, pause])
  | resume => exact .resume rfl
  | setNumThreads n =>
    simp only [call, setNumThreads]
    split_ifs
    · exact .same rfl fun h => h
    · exact .same rfl fun h => h
  | destroy => exact .same rfl fun h => h

theorem Controls.workersAfter (hc : Controls s now s') : WorkersAfter s s' := by
  cases hc with
  | recycle left target id rest hctl hdel =>
    simp only [State.recycle]
    split
    · exact .spawn id rfl rfl
    · exact .spawn id rfl rfl
  | emplace left target hctl =>
    simp only [State.emplace]
    split
    · exact .spawn s.tid rfl rfl
    · exact .spawn s.tid rfl rfl
  | _ => exact .same rfl fun h => h

theorem paused_of_afterWait (h : s.afterWait = .waiting false) : s.paused = true := by
  by_contra hp
  simp [afterWait, hp] at h

theorem afterWait_ne_running (s : State) (id : ℕ) : s.afterWait ≠ .running id := by
  unfold afterWait
  split_ifs <;> simp

theorem Advances.workersAfter {w : Worker} (hw : s.workers[i]? = some w)
    (ha : Advances s i w s') : WorkersAfter s s' := by
  cases ha with
  | begins id hp => exact .move i w _ hw rfl rfl (by simp) (by simp [hp])
  | pauses hp =>
    exact .move i w s.afterWait hw rfl rfl paused_of_afterWait
      fun id h => absurd h (s.afterWait_ne_running id)
  | wakes hp =>
    exact .move i w s.afterWait hw rfl rfl paused_of_afterWait
      fun id h => absurd h (s.afterWait_ne_running id)
  | reports hp => exact .move i w .done hw rfl rfl (by simp) (by simp)
  | _ => exact .move i w _ hw rfl rfl (by simp) (by simp)

end State

theorem step_workersAfter {s s' : State} {e : Event} (hst : step s e = some s') :
    State.WorkersAfter s s' := by
  cases e with
  | call c =>
    simp only [step] at hst
    split_ifs at hst
    exact Option.some.inj hst ▸ State.workersAfter_call c
  | control now => exact (State.control_cases hst).workersAfter
  | pop i k =>
    obtain ⟨w, t, hw, -, -, -, rfl⟩ := State.pop_cases hst
    exact .move i w (.taken t.task) hw rfl rfl (by simp) (by simp)
  | advance i =>
    obtain ⟨w, hw, ha⟩ := State.advance_cases hst
    exact ha.workersAfter hw

end IoTDrive.Pool
