import IoTDrive.Lib.Transition
import Mathlib.Data.List.Basic
import Mathlib.Tactic.SplitIfs

/-! The shutdown of the logger. Its destructor pushes a last message, clears the flag and
joins the thread; the thread tests the flag and, if it is cleared, the queue, before each
blocking `Pop`. A push, a store, a test, a `Pop` and a write are one step each, and the
steps of the threads come in any order. A message is written as it was pushed. -/

namespace IoTDrive.Framework.Logger

open Lib

inductive Severity where
  | debug
  | warning
  | error
  deriving DecidableEq, Repr

structure Message where
  timeCreated : ℕ
  text : String
  sev : Severity
  deriving DecidableEq, Repr

/-- Where the thread is in `LoggerRun`. -/
inductive Phase where
  /-- before the test of `m_running` -/
  | testsRunning
  /-- `m_running` was false: before `IsEmpty` -/
  | testsEmpty
  /-- in `Pop`, which blocks while the queue is empty -/
  | popping
  | writing (log : Message)
  /-- the function has returned -/
  | ended
  deriving DecidableEq, Repr

/-- Where `~Logger` is. -/
inductive Shutdown where
  | notCalled
  /-- the last message is pushed, before the store -/
  | pushed
  | joining
  | joined
  deriving DecidableEq, Repr

/-- `Logger`. `pushed` and `written` record the messages in their order; no step reads them. -/
structure State where
  queue : List Message
  running : Bool
  thread : Phase
  shutdown : Shutdown
  pushed : List Message
  written : List Message
  deriving DecidableEq, Repr

inductive Event where
  | log (now : ℕ) (message : String) (sev : Severity)
  /-- the destructor begins -/
  | destroy (now : ℕ)
  /-- the store of the flag -/
  | clearRunning
  | join
  /-- the next step of the thread -/
  | thread
  deriving DecidableEq, Repr

namespace State

def init : State := ⟨[], true, .testsRunning, .notCalled, [], []⟩

def push (s : State) (m : Message) : State :=
  { s with queue := s.queue ++ [m], pushed := s.pushed ++ [m] }

/-- The next step of `LoggerRun`; nothing where it blocks. -/
def loggerRun (s : State) : Option State :=
  match s.thread with
  | .testsRunning => some { s with thread := if s.running then .popping else .testsEmpty }
  | .testsEmpty => some { s with thread := if s.queue.isEmpty then .ended else .popping }
  | .popping =>
    match s.queue with
    | [] => none
    | log :: rest => some { s with queue := rest, thread := .writing log }
  | .writing log => some { s with written := s.written ++ [log], thread := .testsRunning }
  | .ended => none

/-- What the thread has popped and not written. -/
def inHand (s : State) : List Message :=
  match s.thread with
  | .writing log => [log]
  | _ => []

/-- The destructor waits for a thread that waits for a push nobody will make. -/
def Stuck (s : State) : Prop := s.shutdown = .joining ∧ s.thread = .popping ∧ s.queue = []

end State

/-- Nobody logs once the destructor has begun. -/
def step (s : State) : Event → Option State
  | .log now message sev =>
    if s.shutdown = .notCalled then some (s.push ⟨now, message, sev⟩) else none
  | .destroy now =>
    if s.shutdown = .notCalled then
      some { s.push ⟨now, "Logger shut down", .warning⟩ with shutdown := .pushed }
    else none
  | .clearRunning =>
    if s.shutdown = .pushed then some { s with running := false, shutdown := .joining } else none
  | .join =>
    if s.shutdown = .joining ∧ s.thread = .ended then some { s with shutdown := .joined } else none
  | .thread => s.loggerRun

/-- The thread does not test the flag between the last push and the store with the last
message written already. -/
def TestsInTime (s : State) : Event → Prop
  | .thread => ¬ (s.thread = .testsRunning ∧ s.shutdown = .pushed ∧ s.queue = [])
  | _ => True

/-- Messages are written once and in the order of the pushes, all of them by the end, and the
destructor is not stuck. -/
structure Good (s : State) : Prop where
  in_order : s.written ++ s.inHand ++ s.queue = s.pushed
  all_written : s.shutdown = .joined → s.written = s.pushed
  not_stuck : ¬ s.Stuck

/-! ### What a step does -/

/-- A step of the thread. -/
inductive LoggerRun (s : State) : State → Prop where
  | testRunning (ht : s.thread = .testsRunning) :
    LoggerRun s { s with thread := if s.running then .popping else .testsEmpty }
  | testEmpty (ht : s.thread = .testsEmpty) :
    LoggerRun s { s with thread := if s.queue.isEmpty then .ended else .popping }
  | pop (log : Message) (rest : List Message) (ht : s.thread = .popping)
      (hq : s.queue = log :: rest) :
    LoggerRun s { s with queue := rest, thread := .writing log }
  | write (log : Message) (ht : s.thread = .writing log) :
    LoggerRun s { s with written := s.written ++ [log], thread := .testsRunning }

inductive Step (s : State) : Event → State → Prop where
  | log (now : ℕ) (message : String) (sev : Severity) (hnot : s.shutdown = .notCalled) :
    Step s (.log now message sev) (s.push ⟨now, message, sev⟩)
  | destroy (now : ℕ) (hnot : s.shutdown = .notCalled) :
    Step s (.destroy now) { s.push ⟨now, "Logger shut down", .warning⟩ with shutdown := .pushed }
  | clearRunning (hpushed : s.shutdown = .pushed) :
    Step s .clearRunning { s with running := false, shutdown := .joining }
  | join (hjoin : s.shutdown = .joining) (hended : s.thread = .ended) :
    Step s .join { s with shutdown := .joined }
  | thread {s' : State} (hrun : LoggerRun s s') : Step s .thread s'

theorem loggerRun_cases {s s' : State} (hst : s.loggerRun = some s') : LoggerRun s s' := by
  unfold State.loggerRun at hst
  split at hst
  case h_1 ht => exact Option.some.inj hst ▸ .testRunning ht
  case h_2 ht => exact Option.some.inj hst ▸ .testEmpty ht
  case h_3 ht =>
    split at hst
    · cases hst
    · next log rest hq => exact Option.some.inj hst ▸ .pop log rest ht hq
  case h_4 log ht => exact Option.some.inj hst ▸ .write log ht
  case h_5 => cases hst

theorem step_cases {s s' : State} {e : Event} (hst : step s e = some s') : Step s e s' := by
  cases e with
  | log now message sev =>
    obtain ⟨hnot, rfl⟩ := Option.ite_some_none_eq_some.mp hst
    exact .log now message sev hnot
  | destroy now =>
    obtain ⟨hnot, rfl⟩ := Option.ite_some_none_eq_some.mp hst
    exact .destroy now hnot
  | clearRunning =>
    obtain ⟨hpushed, rfl⟩ := Option.ite_some_none_eq_some.mp hst
    exact .clearRunning hpushed
  | join =>
    obtain ⟨hjoin, rfl⟩ := Option.ite_some_none_eq_some.mp hst
    exact .join hjoin.1 hjoin.2
  | thread => exact .thread (loggerRun_cases hst)

/-! ### The invariant -/

/-- What holds in every state. -/
structure Sound (s : State) : Prop where
  in_order : s.written ++ s.inHand ++ s.queue = s.pushed
  running_iff : s.running = true ↔ s.shutdown = .notCalled ∨ s.shutdown = .pushed
  cleared : s.thread = .testsEmpty → s.running = false
  empty_of_ended : s.thread = .ended → s.running = false ∧ s.queue = []
  ended_of_joined : s.shutdown = .joined → s.thread = .ended

/-- After the last push a thread in `Pop` has something to take. -/
def Fed (s : State) : Prop := s.shutdown ≠ .notCalled → s.thread = .popping → s.queue ≠ []

section Step
variable {s s' : State}

theorem init_sound : Sound State.init where
  in_order := rfl
  running_iff := by simp [State.init]
  cleared := by simp [State.init]
  empty_of_ended := by simp [State.init]
  ended_of_joined := by simp [State.init]

theorem init_fed : Fed State.init := by simp [Fed, State.init]

/-- A push while the flag is set. -/
theorem Sound.push (h : Sound s) (hnot : s.shutdown = .notCalled) (m : Message) {d : Shutdown}
    (hd : d = .notCalled ∨ d = .pushed) : Sound { s.push m with shutdown := d } := by
  have hrun : s.running = true := h.running_iff.mpr (.inl hnot)
  constructor
  case in_order =>
    change s.written ++ s.inHand ++ (s.queue ++ [m]) = s.pushed ++ [m]
    rw [← List.append_assoc, h.in_order]
  case running_iff => exact iff_of_true hrun hd
  case cleared => exact fun ht => h.cleared ht
  case empty_of_ended =>
    intro ht
    have hcleared := (h.empty_of_ended ht).1
    rw [hrun] at hcleared
    cases hcleared
  case ended_of_joined =>
    rintro (rfl : d = .joined)
    rcases hd with hd | hd <;> cases hd

/-- The thread goes on; only its last test sees the flag cleared. -/
theorem Sound.of_thread (h : Sound s) (hnot : s.thread ≠ .ended)
    (horder : s'.written ++ s'.inHand ++ s'.queue = s'.pushed)
    (hrunning : s'.running = s.running) (hshutdown : s'.shutdown = s.shutdown)
    (hcleared : s'.thread = .testsEmpty → s.running = false)
    (hended : s'.thread = .ended → s.running = false ∧ s'.queue = []) : Sound s' := by
  constructor
  case in_order => exact horder
  case running_iff => rw [hrunning, hshutdown]; exact h.running_iff
  case cleared => rw [hrunning]; exact hcleared
  case empty_of_ended => rw [hrunning]; exact hended
  case ended_of_joined =>
    rw [hshutdown]
    exact fun hj => absurd (h.ended_of_joined hj) hnot

theorem Sound.loggerRun (h : Sound s) (hst : LoggerRun s s') : Sound s' := by
  have horder := h.in_order
  cases hst with
  | testRunning ht =>
    rw [State.inHand, ht] at horder
    refine h.of_thread (by simp [ht]) ?_ rfl rfl ?_ ?_
    · cases hr : s.running <;> simpa [State.inHand] using horder
    · cases hr : s.running <;> simp
    · cases hr : s.running <;> simp
  | testEmpty ht =>
    have hcleared := h.cleared ht
    rw [State.inHand, ht] at horder
    refine h.of_thread (by simp [ht]) ?_ rfl rfl ?_ ?_
    · cases hq : s.queue.isEmpty <;> simpa [State.inHand] using horder
    · cases hq : s.queue.isEmpty <;> simp
    · cases hq : s.queue.isEmpty
      · simp
      · exact fun _ => ⟨hcleared, List.isEmpty_iff.mp hq⟩
  | pop log rest ht hq =>
    rw [State.inHand, ht, hq] at horder
    exact h.of_thread (by simp [ht]) (by simpa [State.inHand] using horder) rfl rfl (by simp)
      (by simp)
  | write log ht =>
    rw [State.inHand, ht] at horder
    exact h.of_thread (by simp [ht]) (by simpa [State.inHand] using horder) rfl rfl (by simp)
      (by simp)

theorem step_sound {e : Event} (hst : step s e = some s') (h : Sound s) : Sound s' := by
  cases step_cases hst with
  | log now message sev hnot => exact h.push hnot _ (.inl hnot)
  | destroy now hnot => exact h.push hnot _ (.inr rfl)
  | clearRunning hpushed =>
    constructor
    case in_order => exact h.in_order
    case running_iff => simp
    case cleared => exact fun _ => rfl
    case empty_of_ended => exact fun ht => ⟨rfl, (h.empty_of_ended ht).2⟩
    case ended_of_joined => simp
  | join hjoin hended =>
    have hcleared := (h.empty_of_ended hended).1
    constructor
    case in_order => exact h.in_order
    case running_iff => simp [hcleared]
    case cleared => exact h.cleared
    case empty_of_ended => exact h.empty_of_ended
    case ended_of_joined => exact fun _ => hended
  | thread hrun => exact h.loggerRun hrun

/-- The thread goes to `Pop` after the last push only if something is there. -/
theorem fed_loggerRun (hs : Sound s) (hrule : TestsInTime s .thread) (hst : LoggerRun s s') :
    Fed s' := by
  cases hst with
  | testRunning ht =>
    intro (hcalled : s.shutdown ≠ .notCalled) hpop
    change s.queue ≠ []
    have hrun : s.running = true := by
      by_contra hr
      simp [hr] at hpop
    have hpushed := (hs.running_iff.mp hrun).resolve_left hcalled
    exact fun hq => hrule ⟨ht, hpushed, hq⟩
  | testEmpty ht =>
    intro _ hpop
    change s.queue ≠ []
    rintro hq
    simp [hq] at hpop
  | pop log rest ht hq =>
    intro _ hpop
    cases hpop
  | write log ht =>
    intro _ hpop
    cases hpop

theorem step_fed {e : Event} (hrule : TestsInTime s e) (hst : step s e = some s')
    (hs : Sound s) (h : Fed s) : Fed s' := by
  cases step_cases hst with
  | log now message sev hnot => exact fun hcalled => absurd hnot hcalled
  | destroy now hnot =>
    intro _ _
    simp [State.push]
  | clearRunning hpushed => exact fun _ => h (by simp [hpushed])
  | join hjoin hended => exact fun _ => h (by simp [hjoin])
  | thread hrun => exact fed_loggerRun hs hrule hrun

theorem Sound.inHand_eq_nil (h : Sound s) (hj : s.shutdown = .joined) : s.inHand = [] := by
  rw [State.inHand, h.ended_of_joined hj]

theorem Sound.good (h : Sound s) (hfed : Fed s) : Good s where
  in_order := h.in_order
  all_written hj := by
    have hall := h.in_order
    rw [h.inHand_eq_nil hj, (h.empty_of_ended (h.ended_of_joined hj)).2] at hall
    simpa using hall
  not_stuck := by
    rintro ⟨hjoin, hpop, hq⟩
    exact hfed (by simp [hjoin]) hpop hq

/-- A test at the wrong time leaves the destructor stuck at its next step. -/
theorem Sound.stuck_of_late {e : Event} (h : Sound s) (hst : step s e = some s')
    (hlate : ¬ TestsInTime s e) : ∃ s'', step s' .clearRunning = some s'' ∧ s''.Stuck := by
  cases e with
  | thread =>
    obtain ⟨ht, hpushed, hq⟩ := not_not.mp hlate
    have hrun : s.running = true := h.running_iff.mpr (.inr hpushed)
    have hpop : s' = { s with thread := .popping } := by
      have hst : s.loggerRun = some s' := hst
      rw [State.loggerRun, ht] at hst
      simpa [hrun] using hst.symm
    subst hpop
    exact ⟨{ s with thread := .popping, running := false, shutdown := .joining },
      by simp [step, hpushed], rfl, rfl, hq⟩
  | log _ _ _ => exact absurd trivial hlate
  | destroy _ => exact absurd trivial hlate
  | clearRunning => exact absurd trivial hlate
  | join => exact absurd trivial hlate

end Step

/-! ### Every execution -/

theorem sound_of_run {es : List Event} {s : State}
    (hrun : run step (fun _ _ => True) es State.init = some s) : Sound s :=
  run_invariant (fun _ _ _ _ hst h => step_sound hst h) hrun init_sound

theorem always_fed {es : List Event} (h : Obeys step TestsInTime es State.init) :
    Always step (fun s => Sound s ∧ Fed s) es State.init := by
  refine always_of_obeys (fun s e s' hrule hst hs => ?_) h ⟨init_sound, init_fed⟩
  exact ⟨step_sound hst hs.1, step_fed hrule hst hs.1 hs.2⟩

/-- Messages are written once, in the order of the pushes and all of them, and the destructor
is never stuck, as long as the thread does not test the flag between the last push and the
store with the last message written; after such a test the destructor is stuck at once. -/
theorem logger_shutdown_ends (es : List Event) :
    (Obeys step TestsInTime es State.init → Always step Good es State.init) ∧
      ∀ (e : Event) (s s' : State), run step (fun _ _ => True) es State.init = some s →
        step s e = some s' → ¬ TestsInTime s e →
          ∃ s'', step s' .clearRunning = some s'' ∧ s''.Stuck := by
  constructor
  · exact fun h => (always_fed h).imp fun s hs => hs.1.good hs.2
  · exact fun e s s' hrun hst hlate => (sound_of_run hrun).stuck_of_late hst hlate

/-- The thread takes the last message and tests the flag before it is cleared. -/
def lateStore : List Event :=
  [.log 1 "mounted" .debug, .thread, .thread, .thread, .destroy 2, .thread, .thread, .thread,
    .thread, .clearRunning]

theorem logger_shutdown_stuck : ¬ Always step Good lateStore State.init := by
  intro h
  have hrun : ∃ s, run step (fun _ _ => True) lateStore State.init = some s ∧ s.Stuck :=
    ⟨_, rfl, rfl, rfl, rfl⟩
  obtain ⟨s, hs, hstuck⟩ := hrun
  exact (h.run hs).not_stuck hstuck

/-- The store comes while the last message is in the queue. -/
def timelyStore : List Event :=
  [.log 1 "mounted" .debug, .thread, .destroy 2, .clearRunning, .thread, .thread, .thread, .thread,
    .thread, .thread, .thread, .thread, .join]

theorem logger_shutdown_ends_timely : Always step Good timelyStore State.init ∧
    ∃ s, run step (fun _ _ => True) timelyStore State.init = some s ∧ s.shutdown = .joined ∧
      s.written.length = 2 := by
  refine ⟨(logger_shutdown_ends timelyStore).1 ?_, _, rfl, rfl, rfl⟩
  simp [timelyStore, Obeys, step, TestsInTime, State.init, State.push, State.loggerRun]

/-! ### The end -/

/-- What the threads have still to do for each place they can be at. -/
def Phase.rank : Phase → ℕ
  | .writing _ => 4
  | .testsRunning => 3
  | .testsEmpty => 2
  | .popping => 1
  | .ended => 0

def Shutdown.rank : Shutdown → ℕ
  | .notCalled => 3
  | .pushed => 2
  | .joining => 1
  | .joined => 0

def State.remaining (s : State) : ℕ := 4 * s.queue.length + s.thread.rank + s.shutdown.rank

section Remaining
variable {s s' : State}

/-- Once the destructor has begun, every step brings the end nearer. -/
theorem remaining_lt {e : Event} (hst : step s e = some s') (hcalled : s.shutdown ≠ .notCalled) :
    s'.remaining < s.remaining := by
  cases step_cases hst with
  | log now message sev hnot => exact absurd hnot hcalled
  | destroy now hnot => exact absurd hnot hcalled
  | clearRunning hpushed => simp [State.remaining, hpushed, Shutdown.rank]
  | join hjoin hended => simp [State.remaining, hjoin, Shutdown.rank]
  | thread hrun =>
    cases hrun with
    | testRunning ht => cases hr : s.running <;> simp [State.remaining, ht, Phase.rank]
    | testEmpty ht => cases hq : s.queue.isEmpty <;> simp [State.remaining, ht, Phase.rank]
    | pop log rest ht hq =>
      simp only [State.remaining, ht, hq, Phase.rank, List.length_cons]
      omega
    | write log ht => simp [State.remaining, ht, Phase.rank]

/-- Until the destructor is through, somebody can go on. -/
theorem exists_step (hfed : Fed s) (hcalled : s.shutdown ≠ .notCalled)
    (hnot : s.shutdown ≠ .joined) : ∃ e s', step s e = some s' := by
  cases ht : s.thread with
  | testsRunning => exact ⟨.thread, _, by rw [step, State.loggerRun, ht]⟩
  | testsEmpty => exact ⟨.thread, _, by rw [step, State.loggerRun, ht]⟩
  | popping =>
    obtain ⟨log, rest, hq⟩ := List.exists_cons_of_ne_nil (hfed hcalled ht)
    exact ⟨.thread, _, by rw [step, State.loggerRun, ht, hq]⟩
  | writing log => exact ⟨.thread, _, by rw [step, State.loggerRun, ht]⟩
  | ended =>
    cases hs : s.shutdown with
    | notCalled => exact absurd hs hcalled
    | pushed => exact ⟨.clearRunning, _, by rw [step, if_pos hs]⟩
    | joining => exact ⟨.join, _, by rw [step, if_pos ⟨hs, ht⟩]⟩
    | joined => exact absurd hs hnot

/-- A shutdown that keeps to the rule goes on, and nearer to its end, until it is through. -/
theorem shutdown_goes_on {es : List Event} (h : Obeys step TestsInTime es State.init)
    (hrun : run step (fun _ _ => True) es State.init = some s)
    (hcalled : s.shutdown ≠ .notCalled) (hnot : s.shutdown ≠ .joined) :
    ∃ e s', step s e = some s' ∧ s'.remaining < s.remaining := by
  obtain ⟨e, s', hst⟩ := exists_step ((always_fed h).run hrun).2 hcalled hnot
  exact ⟨e, s', hst, remaining_lt hst hcalled⟩

end Remaining

end IoTDrive.Framework.Logger
