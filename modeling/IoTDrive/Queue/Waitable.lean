import IoTDrive.Lib.Counting
import IoTDrive.Lib.Transition
import Mathlib.Data.List.Perm.Basic

/-! The waitable queues: a container, a mutex and a condition variable, used by any number
of threads. A step takes the mutex, gives it back, pushes, notifies, starts a wait, ends
one, or tests the predicate of the wait and takes the front element if there is one: the
test and the `pop` behind it are one step, because both are done under the mutex.
`notify_one` wakes any one sleeping thread; a wait may also end by itself. The
elements are all those pushed and popped so far, in order. -/

namespace IoTDrive.Queue

open Lib

/-- The container of `WaitableQueue` and of `WaitablePQ`. -/
inductive Container (T : Type*) where
  | queue
  | priorityQueue (less : T → T → Bool)

namespace Container

variable {T : Type*}

/-- Where `front` or `top` may stand among the elements in the order of their pushes. -/
def Front (c : Container T) (q : List T) (k : ℕ) : Prop :=
  match c with
  | queue => k = 0
  | priorityQueue less => ∀ t ∈ q[k]?, ∀ u ∈ q, less t u = false

instance (c : Container T) (q : List T) (k : ℕ) : Decidable (c.Front q k) :=
  match c with
  | queue => inferInstanceAs (Decidable (k = 0))
  | priorityQueue less => inferInstanceAs (Decidable (∀ t ∈ q[k]?, ∀ u ∈ q, less t u = false))

end Container

inductive Call (T : Type*) where
  | push (value : T)
  | pop
  /-- `Pop` with a timeout -/
  | popFor
  | isEmpty

/-- Where a thread is in its call; `timed` tells the two functions `Pop` apart. -/
inductive Phase (T : Type*) where
  | idle
  /-- before the lock of `Enqueue` -/
  | pushing (value : T)
  /-- with the lock, before `queue.push` -/
  | enqueuing (value : T)
  /-- with the lock, the element is in the queue -/
  | enqueued
  /-- the lock is released, before `notify_one` -/
  | notifying
  /-- before the lock of `Pop` -/
  | popping (timed : Bool)
  /-- with the lock, before a test of the predicate, after a wake-up or before any wait -/
  | checking (timed awoken : Bool)
  /-- with the lock, the predicate was false -/
  | waiting (timed : Bool)
  | asleep (timed : Bool)
  /-- the wait is over, before the lock is taken again -/
  | awoken (timed : Bool)
  /-- the timeout has passed, before the lock is taken again -/
  | expired
  /-- with the lock, before the last test of the predicate -/
  | lastCheck
  /-- before the lock of `IsEmptyHelper` -/
  | asking
  /-- with the lock, before `queue.empty` -/
  | looking
  /-- with the lock, before the return of a `Pop` or of `IsEmptyHelper` -/
  | leaving (answer : Bool)

namespace Phase

variable {T : Type*}

/-- The thread has the mutex. -/
def holds : Phase T → Bool
  | enqueuing _ | enqueued | checking _ _ | waiting _ | lastCheck | looking | leaving _ => true
  | _ => false

def isAsleep : Phase T → Bool
  | asleep _ => true
  | _ => false

/-- The thread was woken and has not tested the predicate since. -/
def isAwoken : Phase T → Bool
  | awoken _ | checking _ true => true
  | _ => false

/-- The thread has pushed, its `notify_one` is still to come. -/
def isNotifying : Phase T → Bool
  | enqueued | notifying => true
  | _ => false

/-- The thread is about to test the predicate of its wait. -/
def isChecking : Phase T → Bool
  | checking _ _ | lastCheck => true
  | _ => false

end Phase

def Call.start {T : Type*} : Call T → Phase T
  | .push value => .pushing value
  | .pop => .popping false
  | .popFor => .popping true
  | .isEmpty => .asking

/-- The queue, its mutex and the threads. `pushed` and `popped` record what went through
it and who got it; no step reads them. -/
structure State (T : Type*) where
  queue : List T
  lock : Option ℕ
  threads : List (Phase T)
  pushed : List T
  popped : List (ℕ × T)

inductive Event (T : Type*) where
  | call (i : ℕ) (c : Call T)
  /-- a thread takes its next step -/
  | next (i : ℕ)
  /-- a thread tests the predicate of its wait and takes the element at `k` if it holds -/
  | check (i k : ℕ)
  /-- `notify_one` of thread `i` wakes thread `j` -/
  | notify (i j : ℕ)
  /-- `notify_one` finds nobody asleep -/
  | notifyNone (i : ℕ)
  | timeout (i : ℕ)
  /-- a wait ends without a notification -/
  | spurious (i : ℕ)

namespace State

variable {T : Type*}

def init (n : ℕ) : State T := ⟨[], none, List.replicate n .idle, [], []⟩

def setPhase (s : State T) (i : ℕ) (p : Phase T) : State T :=
  { s with threads := s.threads.set i p }

def asleep (s : State T) : ℕ := s.threads.countP fun p => p.isAsleep

def awoken (s : State T) : ℕ := s.threads.countP fun p => p.isAwoken

def notifying (s : State T) : ℕ := s.threads.countP fun p => p.isNotifying

/-- The mutex is taken, if it is free. -/
def acquire (s : State T) (i : ℕ) (p : Phase T) : Option (State T) :=
  if s.lock = none then some { s.setPhase i p with lock := some i } else none

def release (s : State T) (i : ℕ) (p : Phase T) : State T := { s.setPhase i p with lock := none }

/-- The next step of a thread at `p`; nothing where it waits, or where the step is not its
own alone. -/
def advance (s : State T) (i : ℕ) : Phase T → Option (State T)
  | .pushing value => s.acquire i (.enqueuing value)
  | .enqueuing value =>
    some { s.setPhase i .enqueued with
      queue := s.queue ++ [value]
      pushed := s.pushed ++ [value] }
  | .enqueued => some (s.release i .notifying)
  | .popping timed => s.acquire i (.checking timed false)
  | .waiting timed => some (s.release i (.asleep timed))
  | .awoken timed => s.acquire i (.checking timed true)
  | .expired => s.acquire i .lastCheck
  | .asking => s.acquire i .looking
  | .looking => some (s.setPhase i (.leaving s.queue.isEmpty))
  | .leaving _ => some (s.release i .idle)
  | .idle | .notifying | .checking _ _ | .asleep _ | .lastCheck => none

/-- The predicate holds: `front` or `top`, then `pop`. -/
def take (c : Container T) (s : State T) (i k : ℕ) : Option (State T) :=
  match s.queue[k]? with
  | none => none
  | some value =>
    if c.Front s.queue k then
      some { s.setPhase i (.leaving true) with
        queue := s.queue.eraseIdx k
        popped := s.popped ++ [(i, value)] }
    else none

/-- The predicate of the wait, and what follows on it. -/
def check (c : Container T) (s : State T) (i k : ℕ) : Phase T → Option (State T)
  | .checking timed _ =>
    if s.queue.isEmpty then some (s.setPhase i (.waiting timed)) else s.take c i k
  | .lastCheck =>
    if s.queue.isEmpty then some (s.setPhase i (.leaving false)) else s.take c i k
  | _ => none

end State

def step {T : Type*} (c : Container T) (s : State T) : Event T → Option (State T)
  | .call i call =>
    match s.threads[i]? with
    | some .idle => some (s.setPhase i call.start)
    | _ => none
  | .next i => s.threads[i]?.bind (s.advance i)
  | .check i k => s.threads[i]?.bind (s.check c i k)
  | .notify i j =>
    match s.threads[i]?, s.threads[j]? with
    | some .notifying, some (.asleep timed) =>
      some ((s.setPhase i .idle).setPhase j (.awoken timed))
    | _, _ => none
  | .notifyNone i =>
    match s.threads[i]? with
    | some .notifying => if s.asleep = 0 then some (s.setPhase i .idle) else none
    | _ => none
  | .timeout i =>
    match s.threads[i]? with
    | some (.asleep true) => some (s.setPhase i .expired)
    | _ => none
  | .spurious i =>
    match s.threads[i]? with
    | some (.asleep timed) => some (s.setPhase i (.awoken timed))
    | _ => none

/-! ### What a step can do -/

/-- How a thread that goes from `p` to `p'` leaves the mutex. -/
inductive Passes {T : Type*} (i : ℕ) (p p' : Phase T) (lock : Option ℕ) : Option ℕ → Prop where
  | keeps (h : p'.holds = p.holds) : Passes i p p' lock lock
  | takes (hfree : lock = none) (h' : p'.holds = true) : Passes i p p' lock (some i)
  | gives (h : p.holds = true) (h' : p'.holds = false) : Passes i p p' lock none

/-- A thread goes on, an element is pushed, an element is taken, or a notification is used
up. A thread that goes on waits for nothing in a queue with elements, falls asleep from
such a wait only, and gives up no wake-up. -/
inductive Step {T : Type*} (c : Container T) (s : State T) : State T → Prop where
  | move (i : ℕ) (p p' : Phase T) (lock' : Option ℕ) (hp : s.threads[i]? = some p)
    (hlock : Passes i p p' s.lock lock')
    (hwait : (∃ timed, p' = .waiting timed) → s.queue = [])
    (hsleep : p'.isAsleep = true → ∃ timed, p = .waiting timed)
    (hwake : s.queue = [] ∨
      one p.isAwoken + one p.isNotifying ≤ one p'.isAwoken + one p'.isNotifying) :
    Step c s { s.setPhase i p' with lock := lock' }
  | enqueue (i : ℕ) (value : T) (hp : s.threads[i]? = some (.enqueuing value)) :
    Step c s { s.setPhase i .enqueued with
      queue := s.queue ++ [value]
      pushed := s.pushed ++ [value] }
  | take (i k : ℕ) (value : T) (p : Phase T) (hp : s.threads[i]? = some p)
    (hc : p.isChecking = true) (hk : s.queue[k]? = some value) (hfront : c.Front s.queue k) :
    Step c s { s.setPhase i (.leaving true) with
      queue := s.queue.eraseIdx k
      popped := s.popped ++ [(i, value)] }
  | notify (i j : ℕ) (timed : Bool) (hi : s.threads[i]? = some .notifying)
    (hj : s.threads[j]? = some (.asleep timed)) :
    Step c s ((s.setPhase i .idle).setPhase j (.awoken timed))
  | notifyNone (i : ℕ) (hi : s.threads[i]? = some .notifying) (hnone : s.asleep = 0) :
    Step c s (s.setPhase i .idle)

section Cases
variable {T : Type*} {c : Container T} {s s' : State T} {i k : ℕ} {p : Phase T}

theorem acquire_cases (p' : Phase T) (hp : s.threads[i]? = some p) (h' : p'.holds = true)
    (hwait : ∀ timed, p' ≠ .waiting timed)
    (hwake : one p.isAwoken + one p.isNotifying ≤ one p'.isAwoken + one p'.isNotifying)
    (h : s.acquire i p' = some s') : Step c s s' := by
  unfold State.acquire at h
  split_ifs at h with hfree
  obtain rfl := Option.some.inj h
  refine .move i p p' (some i) hp (.takes hfree h') ?_ ?_ (.inr hwake)
  · rintro ⟨timed, rfl⟩
    exact absurd rfl (hwait timed)
  · intro hs
    cases p' <;> simp_all [Phase.isAsleep, Phase.holds]

theorem advance_cases (hp : s.threads[i]? = some p) (h : s.advance i p = some s') :
    Step c s s' := by
  cases p with
  | pushing value => exact acquire_cases (.enqueuing value) hp rfl (by simp) (Nat.le_refl _) h
  | enqueuing value => exact Option.some.inj h ▸ .enqueue i value hp
  | enqueued =>
    exact Option.some.inj h ▸ .move i _ .notifying none hp (.gives rfl rfl) (by simp)
      (by simp [Phase.isAsleep]) (.inr (Nat.le_refl _))
  | popping timed => exact acquire_cases (.checking timed false) hp rfl (by simp) (Nat.le_refl _) h
  | waiting timed =>
    exact Option.some.inj h ▸ .move i _ (.asleep timed) none hp (.gives rfl rfl) (by simp)
      (fun _ => ⟨timed, rfl⟩) (.inr (Nat.le_refl _))
  | awoken timed => exact acquire_cases (.checking timed true) hp rfl (by simp) (Nat.le_refl _) h
  | expired => exact acquire_cases .lastCheck hp rfl (by simp) (Nat.le_refl _) h
  | asking => exact acquire_cases .looking hp rfl (by simp) (Nat.le_refl _) h
  | looking =>
    exact Option.some.inj h ▸ .move i _ (.leaving _) s.lock hp (.keeps rfl) (by simp)
      (by simp [Phase.isAsleep]) (.inr (Nat.le_refl _))
  | leaving answer =>
    exact Option.some.inj h ▸ .move i _ .idle none hp (.gives rfl rfl) (by simp)
      (by simp [Phase.isAsleep]) (.inr (Nat.le_refl _))
  | idle | notifying | checking _ _ | asleep _ | lastCheck => cases h

theorem take_cases (hp : s.threads[i]? = some p) (hc : p.isChecking = true)
    (h : s.take c i k = some s') : Step c s s' := by
  unfold State.take at h
  split at h
  · cases h
  · next value hk =>
    split_ifs at h with hfront
    exact Option.some.inj h ▸ .take i k value p hp hc hk hfront

theorem check_cases (hp : s.threads[i]? = some p) (h : s.check c i k p = some s') :
    Step c s s' := by
  cases p with
  | checking timed awoken =>
    simp only [State.check] at h
    split_ifs at h with hempty
    · have hq : s.queue = [] := List.isEmpty_iff.mp hempty
      exact Option.some.inj h ▸ .move i _ (.waiting timed) s.lock hp (.keeps rfl) (fun _ => hq)
        (by simp [Phase.isAsleep]) (.inl hq)
    · exact take_cases hp rfl h
  | lastCheck =>
    simp only [State.check] at h
    split_ifs at h with hempty
    · exact Option.some.inj h ▸ .move i _ (.leaving false) s.lock hp (.keeps rfl) (by simp)
        (by simp [Phase.isAsleep]) (.inr (Nat.le_refl _))
    · exact take_cases hp rfl h
  | _ => cases h

theorem step_cases {e : Event T} (h : step c s e = some s') : Step c s s' := by
  cases e with
  | call i call =>
    simp only [step] at h
    split at h
    · next hi =>
      refine Option.some.inj h ▸ .move i .idle call.start s.lock hi ?_ ?_ ?_ ?_
      · cases call <;> exact .keeps rfl
      · cases call <;> simp [Call.start]
      · cases call <;> simp [Call.start, Phase.isAsleep]
      · cases call <;> exact .inr (Nat.le_refl _)
    · cases h
  | next i =>
    obtain ⟨p, hp, h⟩ := Option.bind_eq_some_iff.mp h
    exact advance_cases hp h
  | check i k =>
    obtain ⟨p, hp, h⟩ := Option.bind_eq_some_iff.mp h
    exact check_cases hp h
  | notify i j =>
    simp only [step] at h
    split at h
    · next timed hi hj => exact Option.some.inj h ▸ .notify i j timed hi hj
    · cases h
  | notifyNone i =>
    simp only [step] at h
    split at h
    · next hi =>
      split_ifs at h with hnone
      exact Option.some.inj h ▸ .notifyNone i hi hnone
    · cases h
  | timeout i =>
    simp only [step] at h
    split at h
    · next hi =>
      exact Option.some.inj h ▸ .move i _ .expired s.lock hi (.keeps rfl) (by simp)
        (by simp [Phase.isAsleep]) (.inr (Nat.le_refl _))
    · cases h
  | spurious i =>
    simp only [step] at h
    split at h
    · next timed hi =>
      exact Option.some.inj h ▸ .move i _ (.awoken timed) s.lock hi (.keeps rfl) (by simp)
        (by simp [Phase.isAsleep]) (.inr (Nat.zero_le _))
    · cases h

end Cases

/-! ### The invariant -/

/-- One thread has the mutex; nobody is about to wait at a queue with elements; while
somebody sleeps, every element has a wake-up on the way; and every element pushed is in
the queue or was popped, once. -/
structure Sound {T : Type*} (s : State T) : Prop where
  holder : ∀ (i : ℕ) (p : Phase T), s.threads[i]? = some p →
    (p.holds = true ↔ s.lock = some i)
  waits : ∀ (i : ℕ) (timed : Bool), s.threads[i]? = some (.waiting timed) → s.queue = []
  covered : 0 < s.asleep → s.queue.length ≤ s.awoken + s.notifying
  kept : s.pushed.Perm (s.popped.map Prod.snd ++ s.queue)

namespace State

variable {T : Type*} {s : State T} {i : ℕ} {p : Phase T}

theorem getElem?_setPhase {p' : Phase T} (hp : s.threads[i]? = some p) (j : ℕ) :
    (s.setPhase i p').threads[j]? = if j = i then some p' else s.threads[j]? := by
  have hi : i < s.threads.length := (List.getElem?_eq_some_iff.mp hp).1
  simp only [setPhase, List.getElem?_set]
  split_ifs with h1 h2 h2
  · rfl
  · exact absurd h1.symm h2
  · exact absurd h2.symm h1
  · rfl

/-- The counts, when one thread goes on. -/
theorem asleep_setPhase (p' : Phase T) (hp : s.threads[i]? = some p) :
    (s.setPhase i p').asleep + one p.isAsleep = s.asleep + one p'.isAsleep :=
  countP_set_add p' hp

theorem awoken_setPhase (p' : Phase T) (hp : s.threads[i]? = some p) :
    (s.setPhase i p').awoken + one p.isAwoken = s.awoken + one p'.isAwoken :=
  countP_set_add p' hp

theorem notifying_setPhase (p' : Phase T) (hp : s.threads[i]? = some p) :
    (s.setPhase i p').notifying + one p.isNotifying = s.notifying + one p'.isNotifying :=
  countP_set_add p' hp

end State

section Sound
variable {T : Type*} {c : Container T} {s s' : State T} {i : ℕ} {p p' : Phase T}

theorem init_sound (n : ℕ) : Sound (State.init n : State T) where
  holder i p hp := by
    obtain ⟨-, rfl⟩ := List.mem_replicate.mp (List.mem_of_getElem? hp)
    simp [State.init, Phase.holds]
  waits i timed _ := rfl
  covered _ := Nat.zero_le _
  kept := .nil

/-- The mutex changes hands as the threads say. -/
theorem Sound.holder_move {lock' : Option ℕ} (h : Sound s) (hp : s.threads[i]? = some p)
    (hlock : Passes i p p' s.lock lock') (j : ℕ) (q : Phase T)
    (hq : (s.setPhase i p').threads[j]? = some q) : q.holds = true ↔ lock' = some j := by
  have hi := h.holder i p hp
  rw [State.getElem?_setPhase hp] at hq
  split_ifs at hq with hj
  · subst hj
    obtain rfl := Option.some.inj hq
    cases hlock with
    | keeps hsame => rw [hsame, hi]
    | takes hfree h' => simp [h']
    | gives h h' => simp [h']
  · have hother := h.holder j q hq
    cases hlock with
    | keeps hsame => exact hother
    | takes hfree h' => simp [hother, hfree, Ne.symm hj]
    | gives hold h' => simp [hother, hi.mp hold, Ne.symm hj]

/-- Beside the thread with the mutex nobody is about to wait. -/
theorem Sound.not_waiting (h : Sound s) (hp : s.threads[i]? = some p) (hold : p.holds = true)
    {j : ℕ} {timed : Bool} (hj : s.threads[j]? = some (.waiting timed)) : j = i := by
  have hlock := (h.holder i p hp).mp hold
  have hlock' := (h.holder j _ hj).mp rfl
  exact Option.some.inj (hlock'.symm.trans hlock)

/-- The thread with the mutex changes the queue, and does not wait afterwards. -/
theorem Sound.waits_of_holds (h : Sound s) (hp : s.threads[i]? = some p) (hold : p.holds = true)
    (hp' : ∀ timed, p' ≠ .waiting timed) {P : Prop} (j : ℕ) (timed : Bool)
    (hj : (s.setPhase i p').threads[j]? = some (.waiting timed)) : P := by
  rw [State.getElem?_setPhase hp] at hj
  split_ifs at hj with hji
  · exact absurd (Option.some.inj hj) (hp' timed)
  · exact absurd (h.not_waiting hp hold hj) hji

theorem Phase.holds_of_isChecking (h : p.isChecking = true) : p.holds = true := by
  cases p <;> simp_all [Phase.isChecking, Phase.holds]

theorem Sound.move (h : Sound s) {lock' : Option ℕ} (hp : s.threads[i]? = some p)
    (hlock : Passes i p p' s.lock lock') (hwait : (∃ timed, p' = .waiting timed) → s.queue = [])
    (hsleep : p'.isAsleep = true → ∃ timed, p = .waiting timed)
    (hwake : s.queue = [] ∨
      one p.isAwoken + one p.isNotifying ≤ one p'.isAwoken + one p'.isNotifying) :
    Sound { s.setPhase i p' with lock := lock' } where
  holder := h.holder_move hp hlock
  waits j timed hj := by
    have hj : (s.setPhase i p').threads[j]? = some (.waiting timed) := hj
    rw [State.getElem?_setPhase hp] at hj
    split_ifs at hj with hji
    · exact hwait ⟨timed, Option.some.inj hj⟩
    · exact h.waits j timed hj
  covered := by
    intro (hpos : 0 < (s.setPhase i p').asleep)
    change s.queue.length ≤ (s.setPhase i p').awoken + (s.setPhase i p').notifying
    have hasleep := s.asleep_setPhase p' hp
    have hawoken := s.awoken_setPhase p' hp
    have hnotifying := s.notifying_setPhase p' hp
    by_cases hq : s.queue = []
    · rw [hq]
      exact Nat.zero_le _
    · -- nobody falls asleep at a queue with elements
      have hnot : p'.isAsleep = false := by
        by_contra hs
        obtain ⟨timed, rfl⟩ := hsleep (by simpa using hs)
        exact hq (h.waits i timed hp)
      rw [hnot, one_false] at hasleep
      have hcovered := h.covered (by omega)
      have hwake := hwake.resolve_left hq
      omega
  kept := h.kept

theorem Sound.enqueue (h : Sound s) {value : T} (hp : s.threads[i]? = some (.enqueuing value)) :
    Sound { s.setPhase i .enqueued with
      queue := s.queue ++ [value]
      pushed := s.pushed ++ [value] } where
  holder := h.holder_move hp (.keeps rfl)
  waits := h.waits_of_holds hp rfl (by simp)
  covered := by
    intro (hpos : 0 < (s.setPhase i .enqueued).asleep)
    change (s.queue ++ [value]).length ≤
      (s.setPhase i .enqueued).awoken + (s.setPhase i .enqueued).notifying
    have hasleep := s.asleep_setPhase .enqueued hp
    have hawoken := s.awoken_setPhase .enqueued hp
    have hnotifying := s.notifying_setPhase .enqueued hp
    simp only [Phase.isAsleep, Phase.isAwoken, Phase.isNotifying, one_true, one_false]
      at hasleep hawoken hnotifying
    have hcovered := h.covered (by omega)
    rw [List.length_append, List.length_singleton]
    omega
  kept := by
    change (s.pushed ++ [value]).Perm (s.popped.map Prod.snd ++ (s.queue ++ [value]))
    rw [← List.append_assoc]
    exact h.kept.append_right [value]

theorem Sound.take (h : Sound s) {k : ℕ} {value : T} (hp : s.threads[i]? = some p)
    (hc : p.isChecking = true) (hk : s.queue[k]? = some value) :
    Sound { s.setPhase i (.leaving true) with
      queue := s.queue.eraseIdx k
      popped := s.popped ++ [(i, value)] } where
  holder := h.holder_move hp (.keeps (Phase.holds_of_isChecking hc).symm)
  waits := h.waits_of_holds hp (Phase.holds_of_isChecking hc) (by simp)
  covered := by
    intro (hpos : 0 < (s.setPhase i (.leaving true)).asleep)
    change (s.queue.eraseIdx k).length ≤
      (s.setPhase i (.leaving true)).awoken + (s.setPhase i (.leaving true)).notifying
    have hasleep := s.asleep_setPhase (.leaving true) hp
    have hawoken := s.awoken_setPhase (.leaving true) hp
    have hnotifying := s.notifying_setPhase (.leaving true) hp
    have hp0 : p.isAsleep = false ∧ p.isNotifying = false := by
      cases p <;> simp_all [Phase.isChecking, Phase.isAsleep, Phase.isNotifying]
    have hone : one p.isAwoken ≤ 1 := by unfold one; split_ifs <;> decide
    rw [hp0.1, show (Phase.leaving true : Phase T).isAsleep = false from rfl] at hasleep
    rw [hp0.2, show (Phase.leaving true : Phase T).isNotifying = false from rfl] at hnotifying
    rw [show (Phase.leaving true : Phase T).isAwoken = false from rfl, one_false] at hawoken
    have hcovered := h.covered (by omega)
    -- one element less for at most one thread less
    have hlen := List.length_eraseIdx_add_one (List.getElem?_eq_some_iff.mp hk).1
    omega
  kept := by
    change s.pushed.Perm ((s.popped ++ [(i, value)]).map Prod.snd ++ s.queue.eraseIdx k)
    obtain ⟨hlt, hvalue⟩ := List.getElem?_eq_some_iff.mp hk
    have hperm := List.getElem_cons_eraseIdx_perm hlt
    rw [hvalue] at hperm
    rw [List.map_append, List.append_assoc]
    exact h.kept.trans (hperm.symm.append_left _)

theorem Sound.notify (h : Sound s) {j : ℕ} {timed : Bool} (hi : s.threads[i]? = some .notifying)
    (hj : s.threads[j]? = some (.asleep timed)) :
    Sound ((s.setPhase i .idle).setPhase j (.awoken timed)) := by
  have hne : j ≠ i := by
    rintro rfl
    cases Option.some.inj (hj.symm.trans hi)
  have hj' : (s.setPhase i .idle).threads[j]? = some (.asleep timed) := by
    rw [State.getElem?_setPhase hi, if_neg hne, hj]
  have hasleep := s.asleep_setPhase .idle hi
  have hawoken := s.awoken_setPhase .idle hi
  have hnotifying := s.notifying_setPhase .idle hi
  have hasleep' := (s.setPhase i .idle).asleep_setPhase (.awoken timed) hj'
  have hawoken' := (s.setPhase i .idle).awoken_setPhase (.awoken timed) hj'
  have hnotifying' := (s.setPhase i .idle).notifying_setPhase (.awoken timed) hj'
  simp only [Phase.isAsleep, Phase.isAwoken, Phase.isNotifying, one_true, one_false]
    at hasleep hawoken hnotifying hasleep' hawoken' hnotifying'
  have hcovered := h.covered (by omega)
  have hidle : ∀ (l : ℕ) (q : Phase T), (s.setPhase i .idle).threads[l]? = some q →
      (q.holds = true ↔ s.lock = some l) := h.holder_move hi (.keeps rfl)
  constructor
  case holder =>
    intro l q hq
    rw [State.getElem?_setPhase hj'] at hq
    split_ifs at hq with hl
    · subst hl
      obtain rfl := Option.some.inj hq
      exact h.holder l (.asleep timed) hj
    · exact hidle l q hq
  case waits =>
    intro l timed' hl
    rw [State.getElem?_setPhase hj', State.getElem?_setPhase hi] at hl
    split_ifs at hl
    · cases Option.some.inj hl
    · cases Option.some.inj hl
    · exact h.waits l timed' hl
  case covered =>
    intro _
    change s.queue.length ≤ _
    omega
  case kept => exact h.kept

theorem step_sound {e : Event T} (hst : step c s e = some s') (h : Sound s) : Sound s' := by
  cases step_cases hst with
  | move i p p' lock' hp hlock hwait hsleep hwake => exact h.move hp hlock hwait hsleep hwake
  | enqueue i value hp => exact h.enqueue hp
  | take i k value p hp hc hk hfront => exact h.take hp hc hk
  | notify i j timed hi hj => exact h.notify hi hj
  | notifyNone i hi hnone =>
    have hasleep := s.asleep_setPhase .idle hi
    simp only [Phase.isAsleep, one_false] at hasleep
    constructor
    case holder => exact h.holder_move hi (.keeps rfl)
    case waits =>
      intro j timed hj
      rw [State.getElem?_setPhase hi] at hj
      split_ifs at hj
      · cases Option.some.inj hj
      · exact h.waits j timed hj
    case covered => exact fun hpos => absurd hpos (by omega)
    case kept => exact h.kept

theorem sound_of_run {n : ℕ} {es : List (Event T)} {s : State T}
    (hrun : run (step c) (fun _ _ => True) es (State.init n) = some s) : Sound s :=
  run_invariant (fun _ _ _ _ hst h => step_sound hst h) hrun (init_sound n)

end Sound

/-- What has gone through a plain queue, in order. -/
theorem fifo_of_run {T : Type*} {n : ℕ} {es : List (Event T)} {s : State T}
    (hrun : run (step .queue) (fun _ _ => True) es (State.init n) = some s) :
    s.pushed = s.popped.map Prod.snd ++ s.queue := by
  refine run_invariant (P := fun s : State T => s.pushed = s.popped.map Prod.snd ++ s.queue)
    (fun s _ s' _ hst h => ?_) hrun rfl
  cases step_cases hst with
  | enqueue i value hp =>
    change s.pushed ++ [value] = s.popped.map Prod.snd ++ (s.queue ++ [value])
    rw [h, List.append_assoc]
  | take i k value p hp hc hk hfront =>
    obtain rfl : k = 0 := hfront
    change s.pushed = (s.popped ++ [(i, value)]).map Prod.snd ++ s.queue.eraseIdx 0
    obtain ⟨rest, hqueue⟩ : ∃ rest, s.queue = value :: rest := by
      cases hq : s.queue with
      | nil => simp [hq] at hk
      | cons v rest =>
        rw [hq, List.getElem?_cons_zero] at hk
        exact ⟨rest, by rw [Option.some.inj hk]⟩
    rw [h, hqueue]
    simp
  | move => exact h
  | notify => exact h
  | notifyNone => exact h

/-- `WaitableQueue` hands its elements out in the order of the pushes. The threads that push or
pop stand between the lock and the unlock of one mutex, so there is never more than one. -/
theorem popped_in_order {T : Type*} {n : ℕ} {es : List (Event T)} {s : State T}
    (hrun : run (step .queue) (fun _ _ => True) es (State.init n) = some s) :
    s.pushed = s.popped.map Prod.snd ++ s.queue ∧
      (∀ e s', step .queue s e = some s' → (s'.pushed ≠ s.pushed ∨ s'.popped ≠ s.popped) →
        ∃ i p, s.lock = some i ∧ s.threads[i]? = some p ∧ p.holds = true ∧
          ∀ j q, s.threads[j]? = some q → q.holds = true → j = i) := by
  have hs := sound_of_run hrun
  have halone : ∀ {i : ℕ} {p : Phase T}, s.threads[i]? = some p → p.holds = true →
      ∃ i p, s.lock = some i ∧ s.threads[i]? = some p ∧ p.holds = true ∧
        ∀ j q, s.threads[j]? = some q → q.holds = true → j = i := by
    intro i p hp hhold
    have hlock := (hs.holder i p hp).mp hhold
    refine ⟨i, p, hlock, hp, hhold, fun j q hq hhold' => ?_⟩
    have hlock' := (hs.holder j q hq).mp hhold'
    exact Option.some.inj (hlock'.symm.trans hlock)
  refine ⟨fifo_of_run hrun, fun e s' hst hchange => ?_⟩
  cases step_cases hst with
  | enqueue i value hp => exact halone hp rfl
  | take i k value p hp hc hk hfront => exact halone hp (Phase.holds_of_isChecking hc)
  | move | notify | notifyNone => rcases hchange with hne | hne <;> exact absurd rfl hne

/-- The second producer overtakes the first one at the mutex, and the first element is
popped before the first producer has notified. -/
def overtaken : List (Event ℕ) :=
  [.call 0 (.push 7), .call 1 (.push 8), .next 1, .next 1, .next 1, .call 2 .popFor, .next 0,
    .next 0, .next 0, .next 2, .check 2 0, .next 2, .notifyNone 1]

theorem popped_in_order_overtaken :
    ∃ s, run (step .queue) (fun _ _ => True) overtaken (State.init 3) = some s ∧
      s.popped = [(2, 8)] ∧ s.queue = [7] ∧ s.pushed = [8, 7] := by
  have hrun : (run (step .queue) (fun _ _ => True) overtaken (State.init 3)).map
      (fun s => (s.popped, s.queue)) = some ([(2, 8)], [7]) := by decide
  obtain ⟨s, hs, hvalue⟩ := Option.map_eq_some_iff.mp hrun
  obtain ⟨hpopped, hqueue⟩ := Prod.mk.inj hvalue
  refine ⟨s, hs, hpopped, hqueue, ?_⟩
  rw [(popped_in_order hs).1, hpopped, hqueue]
  rfl

/-- While a consumer sleeps, the wake-ups on the way are at least as many as the queued
elements: no element waits for a sleeping consumer alone. Every element pushed is queued or
popped, and popped once. -/
theorem wakeup_never_lost {T : Type*} (c : Container T) (n : ℕ) (es : List (Event T))
    (s : State T) (hrun : run (step c) (fun _ _ => True) es (State.init n) = some s) :
    (0 < s.asleep → s.queue.length ≤ s.awoken + s.notifying) ∧
      (0 < s.asleep → s.queue ≠ [] → 0 < s.awoken + s.notifying) ∧
        s.pushed.Perm (s.popped.map Prod.snd ++ s.queue) := by
  have h := sound_of_run hrun
  refine ⟨h.covered, fun hpos hq => ?_, h.kept⟩
  exact Nat.lt_of_lt_of_le (List.length_pos_iff.mpr hq) (h.covered hpos)

/-- Two consumers sleep, and a producer has pushed and not notified yet. -/
def twoAsleep : List (Event ℕ) :=
  [.call 0 .pop, .next 0, .check 0 0, .next 0, .call 1 .popFor, .next 1, .check 1 0, .next 1,
    .call 2 (.push 7), .next 2, .next 2, .next 2]

theorem wakeup_never_lost_twoAsleep :
    ∃ s, run (step .queue) (fun _ _ => True) twoAsleep (State.init 3) = some s ∧
      s.asleep = 2 ∧ s.queue = [7] ∧ 0 < s.awoken + s.notifying := by
  have hrun : (run (step .queue) (fun _ _ => True) twoAsleep (State.init 3)).map
      (fun s => (s.asleep, s.queue)) = some (2, [7]) := by decide
  obtain ⟨s, hs, hvalue⟩ := Option.map_eq_some_iff.mp hrun
  obtain ⟨hasleep, hqueue⟩ := Prod.mk.inj hvalue
  have hlost := wakeup_never_lost .queue 3 twoAsleep s hs
  exact ⟨s, hs, hasleep, hqueue, hlost.2.1 (by omega) (by simp [hqueue])⟩

end IoTDrive.Queue
