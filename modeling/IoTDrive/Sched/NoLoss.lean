import IoTDrive.Lib.Counting
import IoTDrive.Sched.Model
import Mathlib.Data.List.Perm.Basic

/-! The scheduler loses no task. The timer is armed again by every `AddTask` and by every
`RunTask` that leaves a task behind, and an execution that finds the queue empty leaves
nothing to arm it for; so a queue that is not empty has somebody who will look at it. -/

namespace IoTDrive.Sched

open Lib

namespace State

variable {s s' : State}

/-- Executions of `RunTask` that have popped a task and not finished. -/
def executing (s : State) : ℕ := s.runs.countP Run.popped

/-- The timer is armed, or an expiry is pending, or a `RunTask` is in progress. -/
def Attended (s : State) : Prop := s.armed.isSome ∨ 0 < s.pending ∨ s.runs ≠ []

/-- Every task added is in the queue or has been popped, once; `m_counter` counts those that
are not done; and a queue that is not empty is attended. -/
structure Sound (s : State) : Prop where
  counter : s.counter = s.queue.length + s.executing
  tasks : (s.queue.map Task.id ++ s.popped).Perm (List.range s.added)
  attended : s.queue ≠ [] → s.Attended

theorem startTimer_armed (h : s.queue ≠ []) : s.startTimer.armed.isSome := by
  obtain ⟨t, rest, hq⟩ := List.exists_cons_of_ne_nil h
  simp [startTimer, hq, List.min?_cons]

/-- Arming the timer changes nothing else. -/
theorem startTimer_eq (s : State) : ∃ its, s.startTimer = { s with armed := its } := by
  unfold startTimer
  split
  · exact ⟨s.armed, rfl⟩
  · exact ⟨_, rfl⟩

/-- Arming the timer keeps the books, and attends to the queue. -/
theorem Sound.startTimer (hc : s.counter = s.queue.length + s.executing)
    (ht : (s.queue.map Task.id ++ s.popped).Perm (List.range s.added)) (hne : s.queue ≠ []) :
    s.startTimer.Sound := by
  have harmed := startTimer_armed hne
  obtain ⟨its, heq⟩ := s.startTimer_eq
  rw [heq] at harmed ⊢
  exact ⟨hc, ht, fun _ => .inl harmed⟩

theorem Sound.addTask (h : s.Sound) (interval : ℤ) : (s.addTask interval).Sound := by
  refine Sound.startTimer ?_ ?_ (by simp)
  · have hc := h.counter
    simp only [executing, List.length_append, List.length_singleton] at hc ⊢
    omega
  · have hmid : (s.queue.map Task.id ++ [s.added] ++ s.popped).Perm
        (s.queue.map Task.id ++ s.popped ++ [s.added]) := by
      rw [List.append_assoc, List.append_assoc]
      exact List.Perm.append_left _ List.perm_append_comm
    rw [List.map_append, List.range_succ]
    exact hmid.trans (h.tasks.append_right _)

theorem Sound.expire (h : s.Sound) (hst : s.expire = some s') : s'.Sound := by
  obtain ⟨its, -, -, rfl⟩ := expire_cases hst
  exact ⟨h.counter, h.tasks, fun _ => .inr (.inl (Nat.succ_pos _))⟩

theorem Sound.enter (h : s.Sound) (hst : s.enter = some s') : s'.Sound := by
  obtain ⟨-, rfl⟩ := enter_cases hst
  refine ⟨?_, h.tasks, fun _ => .inr (.inr (by simp))⟩
  simpa [executing, Run.popped] using h.counter

theorem perm_cons_eraseIdx {k : ℕ} {t : Task} (ht : s.queue[k]? = some t) :
    s.queue.Perm (t :: s.queue.eraseIdx k) := by
  obtain ⟨hk, rfl⟩ := List.getElem?_eq_some_iff.mp ht
  exact (List.getElem_cons_eraseIdx_perm hk).symm

theorem Sound.popTask {r k : ℕ} (h : s.Sound) (hst : s.popTask r k = some s') : s'.Sound := by
  obtain ⟨hr, ⟨hempty, rfl⟩ | ⟨t, ht, -, rfl⟩⟩ := popTask_cases hst
  · -- the queue is empty, the execution returns
    have hcount := countP_eraseIdx_add (p := Run.popped) hr
    refine ⟨?_, h.tasks, fun hne => absurd hempty hne⟩
    have hc := h.counter
    simp only [executing, Run.popped, one_false] at hc hcount ⊢
    omega
  · have hcount := countP_modify_add (p := Run.popped) (fun _ => .running t) hr
    have hperm := perm_cons_eraseIdx ht
    refine ⟨?_, ?_, fun _ => .inr (.inr ?_)⟩
    · have hc := h.counter
      have hlen := hperm.length_eq
      simp only [executing, Run.popped, one_false, one_true, List.length_cons] at hc hcount hlen ⊢
      omega
    · -- the popped id moves from the queue to the log
      refine List.Perm.trans ?_ h.tasks
      have hmap := (hperm.map Task.id).append_right s.popped
      refine List.Perm.trans ?_ hmap.symm
      rw [List.map_cons, List.cons_append, ← List.append_assoc]
      exact List.perm_append_singleton _ _
    · intro hnil
      simp only at hnil
      have hlen := congrArg List.length hnil
      have hlt := (List.getElem?_eq_some_iff.mp hr).1
      simp only [List.length_modify, List.length_nil] at hlen
      omega

theorem Sound.finish {r : ℕ} (h : s.Sound) (hst : s.finish r = some s') : s'.Sound := by
  obtain ⟨t, hr, hcase⟩ := finish_cases hst
  have hcount := countP_eraseIdx_add (p := Run.popped) hr
  have hc := h.counter
  simp only [executing, Run.popped, one_true] at hc hcount
  have hdone : s.counter - 1 = s.queue.length + (s.runs.eraseIdx r).countP Run.popped := by omega
  obtain ⟨hzero, rfl⟩ | ⟨-, hne, rfl⟩ | ⟨-, hnil, rfl⟩ := hcase
  · -- nothing is left, neither in the queue nor in another execution
    refine ⟨hdone, h.tasks, fun hne => absurd (List.length_eq_zero_iff.mp ?_) hne⟩
    simp only
    omega
  · exact Sound.startTimer hdone h.tasks hne
  · exact ⟨hdone, h.tasks, fun hne => absurd hnil hne⟩

end State

theorem step_sound {s s' : State} {e : Event} (hst : step s e = some s') (h : s.Sound) :
    s'.Sound := by
  cases e with
  | tick d =>
    obtain rfl := Option.some.inj hst
    exact ⟨h.counter, h.tasks, h.attended⟩
  | addTask caller interval =>
    simp only [step] at hst
    split_ifs at hst
    exact Option.some.inj hst ▸ h.addTask interval
  | expire => exact h.expire hst
  | enter => exact h.enter hst
  | pop r k => exact h.popTask hst
  | finish r threw => exact h.finish hst

theorem scheduler_sound (now : ℤ) : (scheduler now).Sound :=
  ⟨rfl, List.Perm.refl _, fun h => absurd rfl h⟩

/-- In every state that the scheduler reaches, `m_counter` is the size of the queue and the
executions under way, no task has been popped twice and none is missing, and the queue is
attended unless it is empty. -/
theorem run_sound {now : ℤ} {es : List Event} {s : State}
    (hrun : run step (fun _ _ => True) es (scheduler now) = some s) :
    s.counter = s.queue.length + s.executing ∧ s.popped.Nodup ∧
      (s.queue.map Task.id ++ s.popped).Perm (List.range s.added) ∧
      (s.queue ≠ [] → s.Attended) := by
  have h := run_invariant (fun _ _ _ _ hst h => step_sound hst h) hrun (scheduler_sound now)
  have hnodup := h.tasks.nodup_iff.mpr List.nodup_range
  exact ⟨h.counter, (List.nodup_append.mp hnodup).2.1, h.tasks, h.attended⟩

/-- A task is added and runs; it adds itself again and throws. -/
def reschedule : List Event :=
  [.addTask none 1, .tick 1000000, .expire, .enter, .pop 0 0, .addTask (some 0) 1, .finish 0 true]

theorem run_sound_reschedule :
    ∃ s, run step (fun _ _ => True) reschedule (scheduler 0) = some s ∧
      s.popped = [0] ∧ s.queue ≠ [] ∧ s.Attended := by
  have hrun : (run step (fun _ _ => True) reschedule (scheduler 0)).map
      (fun s => (s.popped, s.queue)) = some ([0], [⟨1, 2000000⟩]) := by decide +kernel
  obtain ⟨s, hs, heq⟩ := Option.map_eq_some_iff.mp hrun
  simp only [Prod.mk.injEq] at heq
  have hne : s.queue ≠ [] := by simp [heq.2]
  exact ⟨s, hs, heq.1, hne, (run_sound hs).2.2.2 hne⟩

end IoTDrive.Sched
