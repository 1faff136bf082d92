import IoTDrive.Lib.Drain
import IoTDrive.Pool.Progress
import Mathlib.Data.List.Nodup

/-! The order in which the pool runs what waits in its queue. `TPTask::operator<` makes the
task of the higher priority the greater and, of two tasks of one priority, the newer one;
`top` is a greatest task. So the higher priority goes first, and within one priority the
last submitted. -/

namespace IoTDrive.Pool

open Lib

/-- The arguments of an `AddTask`, and what the clock shows then. -/
structure Submission where
  id : ℕ
  pr : Priority
  now : ℕ
  deriving DecidableEq, Repr

namespace Submission

def call (sub : Submission) : Event := .call (.addTask sub.id sub.pr sub.now)

def task (sub : Submission) : TPTask := .user sub.id sub.pr sub.now

end Submission

/-- A step of the workers. -/
def Event.ofWorker : Event → Bool
  | .pop _ _ | .advance _ => true
  | _ => false

/-- The task that a step takes from the queue. -/
def takes (s : State) : Event → List TPTask
  | .pop _ k => s.pq[k]?.toList
  | _ => []

/-- The tasks that are taken from the queue, in order. A worker runs each before the next. -/
def taken : List Event → State → List TPTask
  | [], _ => []
  | e :: es, s => takes s e ++ (step s e).elim [] (taken es)

/-- Higher priorities come first, and the tasks of one priority in the order of `q`. -/
structure PriorityThenSubmission (q order : List TPTask) : Prop where
  by_priority : order.Pairwise fun a b => b.priority.value ≤ a.priority.value
  by_submission : ∀ p, order.filter (fun t => t.priority = p) = q.filter fun t => t.priority = p

/-! ### What the queue hands out -/

section Drain
variable {s s' : State}

theorem advance_pq {i : ℕ} (h : s.advance i = some s') : s'.pq = s.pq := by
  obtain ⟨w, -, ha⟩ := State.advance_cases h
  cases ha <;> rfl

/-- While only the workers go on, what they take drains the queue. -/
theorem taken_drains {es : List Event} (hes : ∀ e ∈ es, e.ofWorker = true)
    (hrun : run step (fun _ _ => True) es s = some s') :
    Drains TPTask.Less s.pq (taken es s) s'.pq := by
  induction es generalizing s with
  | nil => exact Option.some.inj hrun ▸ .done s.pq
  | cons e es ih =>
    obtain ⟨-, m, hm, hrest⟩ := run_cons.mp hrun
    have htail := ih (fun e' he' => hes e' (.tail _ he')) hrest
    rw [taken, hm, Option.elim_some]
    cases e with
    | call c => cases hes _ List.mem_cons_self
    | control now => cases hes _ List.mem_cons_self
    | pop i k =>
      obtain ⟨w, t, -, ht, -, htop, rfl⟩ := State.pop_cases hm
      rw [takes, ht]
      exact .take k t ht htop htail
    | advance i =>
      rw [advance_pq hm] at htail
      exact htail

theorem run_submissions (subs : List Submission) (hidle : s.ctl = .idle) :
    run step (fun _ _ => True) (subs.map Submission.call) s =
        some { s with pq := s.pq ++ subs.map Submission.task } ∧
      ∀ es, taken (subs.map Submission.call ++ es) s =
        taken es { s with pq := s.pq ++ subs.map Submission.task } := by
  induction subs generalizing s with
  | nil => simp
  | cons sub subs ih =>
    have hstep : step s sub.call = some (s.push sub.task) := by
      simp [step, Submission.call, hidle, State.call, State.addTask, Submission.task]
    obtain ⟨hrun, htaken⟩ := ih (s := s.push sub.task) hidle
    have hpq : ∀ s : State, (s.push sub.task).pq ++ subs.map Submission.task =
        s.pq ++ (sub :: subs).map Submission.task := by
      intro s
      simp [State.push]
    constructor
    · rw [List.map_cons]
      refine run_cons.mpr ⟨trivial, _, hstep, ?_⟩
      rw [hrun, hpq]
      rfl
    · intro es
      rw [List.map_cons, List.cons_append, taken, hstep, Option.elim_some, htaken, hpq]
      rfl

/-- A worker back in its loop takes and runs whatever waits. -/
theorem exists_drain {n i tid : ℕ} (hn : s.pq.length = n) (hw : s.workers[i]? = some ⟨tid, .loop⟩)
    (huser : ∀ t ∈ s.pq, t.task.isUser = true) :
    ∃ es s', (∀ e ∈ es, e.ofWorker = true) ∧ run step (fun _ _ => True) es s = some s' ∧
      s'.pq = [] := by
  induction n generalizing s with
  | zero => exact ⟨[], s, by simp, rfl, List.length_eq_zero_iff.mp hn⟩
  | succ n ih =>
    have hne : s.pq ≠ [] := List.ne_nil_of_length_pos (by omega)
    obtain ⟨k, t, hk, htop⟩ := exists_top hne
    obtain ⟨hlt, hget⟩ := List.getElem?_eq_some_iff.mp hk
    obtain ⟨id, hid⟩ : ∃ id, t.task = .user id := by
      have ht := huser t (hget ▸ List.getElem_mem hlt)
      cases htask : t.task with
      | user id => exact ⟨id, rfl⟩
      | pauseThreadTask => simp [htask, Job.isUser] at ht
      | endThreadTask => simp [htask, Job.isUser] at ht
    let s₁ : State := { s.setPhase i (.taken t.task) with pq := s.pq.eraseIdx k }
    let s₂ : State := s₁.setPhase i (.running id)
    let s₃ : State := s₂.setPhase i .loop
    have hw₁ : s₁.workers[i]? = some ⟨tid, .taken (.user id)⟩ := by
      rw [← hid]
      exact State.setPhase_same hw
    have hw₂ : s₂.workers[i]? = some ⟨tid, .running id⟩ := State.setPhase_same hw₁
    have hw₃ : s₃.workers[i]? = some ⟨tid, .loop⟩ := State.setPhase_same hw₂
    have h₁ : step s (.pop i k) = some s₁ := by
      simp only [step, State.pop, hw, hk]
      rw [if_pos ⟨trivial, htop⟩]
    have h₂ : step s₁ (.advance i) = some s₂ := by
      simp [step, State.advance, hw₁, s₂]
    have h₃ : step s₂ (.advance i) = some s₃ := by
      simp [step, State.advance, hw₂, s₃]
    have hlen : s₃.pq.length = n := by
      have hlen := List.length_eraseIdx_add_one hlt
      change (s.pq.eraseIdx k).length = n
      omega
    obtain ⟨es, s', hes, hrun, hpq⟩ := ih hlen hw₃
      fun t' ht' => huser t' (List.mem_of_mem_eraseIdx ht')
    refine ⟨.pop i k :: .advance i :: .advance i :: es, s', ?_, ?_, hpq⟩
    · simpa [Event.ofWorker] using hes
    · exact run_cons.mpr ⟨trivial, s₁, h₁, run_cons.mpr ⟨trivial, s₂, h₂,
        run_cons.mpr ⟨trivial, s₃, h₃, hrun⟩⟩⟩

end Drain

/-! ### The order -/

section Order
variable {q order : List TPTask}

theorem length_le_one_of_pairwise {l : List TPTask} (h : l.Pairwise fun _ _ => False) :
    l.length ≤ 1 := by
  match l with
  | [] => exact Nat.zero_le 1
  | [_] => exact Nat.le_refl 1
  | _ :: b :: _ => exact ((List.pairwise_cons.mp h).1 b List.mem_cons_self).elim

theorem eq_of_perm_of_length {l l' : List TPTask} (h : l.Perm l') (hl : l.length ≤ 1) :
    l = l' := by
  match l with
  | [] => exact h.nil_eq
  | [_] => exact h.singleton_eq
  | _ :: _ :: _ => simp at hl

theorem by_priority_of_drains (h : Drains TPTask.Less q order []) :
    order.Pairwise fun a b => b.priority.value ≤ a.priority.value :=
  h.pairwise.imp fun hnot => Nat.le_of_not_lt fun hlt => hnot (.inr hlt)

/-- Two tasks of one priority cannot have come out in the order of their submission. -/
theorem nodup_of_drains (h : Drains TPTask.Less q order [])
    (htimes : q.Pairwise fun a b => a.timeCreated < b.timeCreated)
    (horder : PriorityThenSubmission q order) : (q.map TPTask.priority).Nodup := by
  apply List.nodup_iff_count_le_one.mpr
  intro p
  have hcount : (q.map TPTask.priority).count p =
      (order.filter fun t => t.priority = p).length := by
    rw [horder.by_submission, List.count, List.countP_map, List.countP_eq_length_filter]
    congr 1
  rw [hcount]
  -- in the part with priority `p` each task is above the one before it
  have hnone : (order.filter fun t => t.priority = p).Pairwise fun _ _ => False := by
    have hless : (order.filter fun t => t.priority = p).Pairwise
        fun a b => a.timeCreated < b.timeCreated := by
      rw [horder.by_submission]
      exact htimes.sublist List.filter_sublist
    have hnot := h.pairwise.sublist (List.filter_sublist (p := fun t => t.priority = p))
    refine (hless.and hnot).imp_of_mem fun ha hb hab => ?_
    have ha := of_decide_eq_true (List.mem_filter.mp ha).2
    have hb := of_decide_eq_true (List.mem_filter.mp hb).2
    exact hab.2 (.inl ⟨hab.1, ha.trans hb.symm⟩)
  exact length_le_one_of_pairwise hnone

theorem order_of_nodup (h : Drains TPTask.Less q order [])
    (hnodup : (q.map TPTask.priority).Nodup) : PriorityThenSubmission q order where
  by_priority := by_priority_of_drains h
  by_submission p := by
    have hperm : q.Perm order := by simpa using h.perm
    have hfilter := hperm.filter fun t => t.priority = p
    have hle : (q.filter fun t => t.priority = p).length ≤ 1 := by
      have hcount := List.nodup_iff_count_le_one.mp hnodup p
      rw [List.count, List.countP_map, List.countP_eq_length_filter] at hcount
      exact hcount
    exact (eq_of_perm_of_length hfilter hle).symm

end Order

theorem inner_injective : Function.Injective Priority.inner := by
  intro a b h
  cases a <;> cases b <;> first | rfl | cases h

theorem map_priority_submissions (subs : List Submission) :
    (subs.map Submission.task).map TPTask.priority =
      (subs.map Submission.pr).map Priority.inner := by
  rw [List.map_map, List.map_map]
  rfl

/-- Tasks are submitted one after another while a worker is busy, then the workers take them
all. They come out by priority and in the order of submission if and only if no two of them
have one priority. Nothing is asked of the other workers: where all of them have ended, as
in a pool that was made smaller, the one worker runs each task before it takes the next. -/
theorem pool_order_iff (s : State) (i tid busy : ℕ) (subs : List Submission)
    (hidle : s.ctl = .idle) (hpq : s.pq = [])
    (hbusy : s.workers[i]? = some ⟨tid, .running busy⟩)
    (htimes : subs.Pairwise fun a b => a.now < b.now) :
    (∀ (es : List Event) (s' : State), (∀ e ∈ es, e.ofWorker = true) →
        run step (fun _ _ => True) (subs.map Submission.call ++ es) s = some s' → s'.pq = [] →
          PriorityThenSubmission (subs.map Submission.task)
            (taken (subs.map Submission.call ++ es) s)) ↔
      (subs.map Submission.pr).Nodup := by
  obtain ⟨hsubs, htaken⟩ := run_submissions subs hidle
  rw [hpq, List.nil_append] at hsubs
  have htasks : (subs.map Submission.task).Pairwise fun a b => a.timeCreated < b.timeCreated :=
    List.pairwise_map.mpr htimes
  have hnodup : ((subs.map Submission.task).map TPTask.priority).Nodup ↔
      (subs.map Submission.pr).Nodup := by
    rw [map_priority_submissions]
    exact List.nodup_map_iff inner_injective
  rw [← hnodup]
  constructor
  · intro h
    -- the busy worker returns and takes everything
    let s₁ : State := { s with pq := subs.map Submission.task }
    have hreturn : step s₁ (.advance i) = some (s₁.setPhase i .loop) := by
      simp [step, State.advance, s₁, hbusy]
    have huser : ∀ t ∈ subs.map Submission.task, t.task.isUser = true := by
      intro t ht
      obtain ⟨sub, -, rfl⟩ := List.mem_map.mp ht
      rfl
    have hloop : (s₁.setPhase i .loop).workers[i]? = some ⟨tid, .loop⟩ :=
      State.setPhase_same (s := s₁) hbusy
    obtain ⟨es, s', hes, hrun, hdone⟩ := exists_drain (s := s₁.setPhase i .loop) rfl hloop huser
    have hrun₁ : run step (fun _ _ => True) (.advance i :: es) s₁ = some s' :=
      run_cons.mpr ⟨trivial, _, hreturn, hrun⟩
    have hes₁ : ∀ e ∈ Event.advance i :: es, e.ofWorker = true := by
      simpa [Event.ofWorker] using hes
    have horder := h (.advance i :: es) s' hes₁ (by rw [run_append, hsubs]; exact hrun₁) hdone
    rw [htaken, hpq, List.nil_append] at horder
    have hdrains := taken_drains hes₁ hrun₁
    rw [hdone] at hdrains
    exact nodup_of_drains hdrains htasks horder
  · intro hnodup es s' hes hrun hdone
    rw [run_append, hsubs, Option.bind_some] at hrun
    have hdrains := taken_drains hes hrun
    rw [hdone] at hdrains
    rw [htaken, hpq, List.nil_append]
    exact order_of_nodup hdrains hnodup

/-! ### A pool of one worker -/

/-- The pool of one thread, whose worker is in its first task. -/
def busyPool : State :=
  { threadPool 1 with
    threads := Function.update (fun _ => none) 0 (some 0)
    tid := 1
    workers := [⟨0, .running 9⟩]
    ctl := .idle }

example : run step (fun _ _ => True)
    [.control 0, .control 0, .control 0, .call (.addTask 9 .low 0), .pop 0 0, .advance 0]
    (threadPool 1) = some busyPool := rfl

/-- Three tasks of three priorities. -/
def threeRanks : List Submission := [⟨1, .low, 1⟩, ⟨2, .high, 2⟩, ⟨3, .medium, 3⟩]

/-- The worker returns and takes all three. -/
def takeThree : List Event :=
  [.advance 0, .pop 0 1, .advance 0, .advance 0, .pop 0 1, .advance 0, .advance 0, .pop 0 0]

theorem pool_order_iff_busy :
    taken (threeRanks.map Submission.call ++ takeThree) busyPool =
        [.user 2 .high 2, .user 3 .medium 3, .user 1 .low 1] ∧
      PriorityThenSubmission (threeRanks.map Submission.task)
        (taken (threeRanks.map Submission.call ++ takeThree) busyPool) :=
  ⟨by decide, (pool_order_iff busyPool 0 0 9 threeRanks rfl rfl rfl (by decide)).mpr (by decide)
    takeThree _ (by decide) rfl rfl⟩

/-- Two tasks of the default priority. -/
def twoLow : List Submission := [⟨1, .low, 1⟩, ⟨2, .low, 2⟩]

/-- The worker returns and takes both. -/
def takeTwo : List Event :=
  [.advance 0, .pop 0 1, .advance 0, .advance 0, .pop 0 0, .advance 0, .advance 0]

/-- The newer of two tasks of the default priority is run first. -/
theorem pool_runs_newest_first :
    ∃ s', run step (fun _ _ => True) (twoLow.map Submission.call ++ takeTwo) busyPool = some s' ∧
      s'.pq = [] ∧
      taken (twoLow.map Submission.call ++ takeTwo) busyPool =
        [.user 2 .low 2, .user 1 .low 1] ∧
      ¬ PriorityThenSubmission (twoLow.map Submission.task)
        (taken (twoLow.map Submission.call ++ takeTwo) busyPool) := by
  have htaken : taken (twoLow.map Submission.call ++ takeTwo) busyPool =
      [.user 2 .low 2, .user 1 .low 1] := by decide
  refine ⟨_, rfl, rfl, htaken, fun h => ?_⟩
  have hsame := h.by_submission .ilow
  rw [htaken] at hsame
  exact absurd hsame (by decide)

end IoTDrive.Pool
