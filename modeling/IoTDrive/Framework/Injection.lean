import IoTDrive.Lib.Counting
import IoTDrive.Lib.Transition
import Mathlib.Tactic.SplitIfs

/-! An action injected with `AsyncInjection::Schedule`. The object that holds it is owned by
shared pointers: the local one of `Schedule`, and the one that `lock` gives to each `Run`
of a task that finds the object alive. The tasks in the scheduler have weak pointers only.
The scheduler runs every task added to it, each on a thread of its own and at any time,
so the interval does not appear. The steps of the threads come in any order. -/

namespace IoTDrive.Framework.Injection

open Lib

/-- Where `Schedule` is. -/
inductive Schedule where
  /-- the object is made, its task not yet added -/
  | made
  /-- the task is added, the local pointer still there -/
  | added
  | returned
  deriving DecidableEq, Repr

/-- Where a `Run` is whose `lock` has found the object. -/
inductive Run where
  /-- in `PerformAction`, before `m_task` is called -/
  | locked
  /-- `m_task` returned false, before `AddTask` of `Reschedule` -/
  | rescheduling
  /-- before the end of the pointer -/
  | releasing
  deriving DecidableEq, Repr

namespace Run

/-- The function will be called, or the next task added. -/
def isActive : Run → Bool
  | locked | rescheduling => true
  | releasing => false

def isRescheduling : Run → Bool
  | rescheduling => true
  | _ => false

end Run

/-- One `AsyncInjection` with the tasks in the scheduler that point to it. `calls` counts the
calls of `m_task`. -/
structure State where
  schedule : Schedule
  /-- `use_count` -/
  owners : ℕ
  waiting : ℕ
  runs : List Run
  calls : ℕ
  deriving DecidableEq, Repr

inductive Event where
  /-- `AddTask` of `Schedule` -/
  | add
  /-- `Schedule` returns -/
  | return
  /-- the scheduler runs a task -/
  | start
  /-- a `Run` calls the function -/
  | call (r : ℕ)
  /-- `AddTask` of `Reschedule` -/
  | reschedule (r : ℕ)
  /-- a `Run` gives up its pointer -/
  | release (r : ℕ)
  deriving DecidableEq, Repr

/-- `Schedule` has made the object. -/
def init : State := ⟨.made, 1, 0, [], 0⟩

/-- Where a `Run` goes on after the call of the function. -/
def afterCall (result : Bool) : Run := if result then .releasing else .rescheduling

/-- `results` are the values that the calls of the function return. -/
def step (results : ℕ → Bool) (s : State) : Event → Option State
  | .add =>
    if s.schedule = .made then some { s with schedule := .added, waiting := s.waiting + 1 }
    else none
  | .return =>
    if s.schedule = .added then some { s with schedule := .returned, owners := s.owners - 1 }
    else none
  | .start =>
    if 0 < s.waiting then
      -- `lock` of the weak pointer
      if 0 < s.owners then
        some { s with
          waiting := s.waiting - 1
          owners := s.owners + 1
          runs := s.runs ++ [.locked] }
      else some { s with waiting := s.waiting - 1 }
    else none
  | .call r =>
    if s.runs[r]? = some .locked then
      some { s with
        calls := s.calls + 1
        runs := s.runs.set r (afterCall (results s.calls)) }
    else none
  | .reschedule r =>
    if s.runs[r]? = some .rescheduling then
      some { s with waiting := s.waiting + 1, runs := s.runs.set r .releasing }
    else none
  | .release r =>
    if s.runs[r]? = some .releasing then
      some { s with owners := s.owners - 1, runs := s.runs.eraseIdx r }
    else none

/-- What a step has found, and what it does. -/
inductive Step (results : ℕ → Bool) (s : State) : Event → State → Prop where
  | add (hmade : s.schedule = .made) :
    Step results s .add { s with schedule := .added, waiting := s.waiting + 1 }
  | returns (hadded : s.schedule = .added) :
    Step results s .return { s with schedule := .returned, owners := s.owners - 1 }
  | start (hwaiting : 0 < s.waiting) (howned : 0 < s.owners) :
    Step results s .start { s with
      waiting := s.waiting - 1
      owners := s.owners + 1
      runs := s.runs ++ [.locked] }
  /-- the object is gone -/
  | lapse (hwaiting : 0 < s.waiting) (hnone : ¬ 0 < s.owners) :
    Step results s .start { s with waiting := s.waiting - 1 }
  | call (r : ℕ) (hr : s.runs[r]? = some .locked) :
    Step results s (.call r) { s with
      calls := s.calls + 1
      runs := s.runs.set r (afterCall (results s.calls)) }
  | reschedule (r : ℕ) (hr : s.runs[r]? = some .rescheduling) :
    Step results s (.reschedule r) { s with
      waiting := s.waiting + 1
      runs := s.runs.set r .releasing }
  | release (r : ℕ) (hr : s.runs[r]? = some .releasing) :
    Step results s (.release r) { s with owners := s.owners - 1, runs := s.runs.eraseIdx r }

theorem step_cases {results : ℕ → Bool} {s s' : State} {e : Event}
    (hst : step results s e = some s') : Step results s e s' := by
  cases e with
  | add =>
    obtain ⟨hmade, rfl⟩ := Option.ite_some_none_eq_some.mp hst
    exact .add hmade
  | «return» =>
    obtain ⟨hadded, rfl⟩ := Option.ite_some_none_eq_some.mp hst
    exact .returns hadded
  | start =>
    simp only [step] at hst
    split_ifs at hst with hwaiting howned
    · exact Option.some.inj hst ▸ .start hwaiting howned
    · exact Option.some.inj hst ▸ .lapse hwaiting howned
  | call r =>
    obtain ⟨hr, rfl⟩ := Option.ite_some_none_eq_some.mp hst
    exact .call r hr
  | reschedule r =>
    obtain ⟨hr, rfl⟩ := Option.ite_some_none_eq_some.mp hst
    exact .reschedule r hr
  | release r =>
    obtain ⟨hr, rfl⟩ := Option.ite_some_none_eq_some.mp hst
    exact .release r hr

/-- Nothing is left to run. -/
def AtRest (s : State) : Prop := s.schedule = .returned ∧ s.waiting = 0 ∧ s.runs = []

/-- The function is not called after a call that returned true, and things come to rest with
such a call only; so the calls end with the first that returns true. -/
structure Polls (results : ℕ → Bool) (s : State) : Prop where
  never_after : ∀ i, i + 1 < s.calls → results i = false
  until_true : AtRest s → ∃ k, s.calls = k + 1 ∧ results k = true
  exactly : ∀ k, results k = true → (∀ i < k, results i = false) →
    s.calls ≤ k + 1 ∧ (AtRest s → s.calls = k + 1)

/-- A task is run while somebody owns the object: `Schedule` or an earlier `Run`. -/
def Owned (s : State) : Event → Prop
  | .start => 0 < s.owners
  | _ => True

/-! ### The invariant -/

/-- `Schedule` owns the object until it returns. -/
def Schedule.owns : Schedule → Bool
  | returned => false
  | _ => true

/-- The chances for another call: at most one, in `Schedule`, in the scheduler or in a `Run`. -/
def live (s : State) : ℕ := one (s.schedule = .made) + s.waiting + s.runs.countP Run.isActive

/-- Every pointer is counted; while there is a chance for another call no call has returned
true, and once there is none, either the last one has or nobody owned the object. -/
structure Sound (results : ℕ → Bool) (s : State) : Prop where
  owners_eq : s.owners = one s.schedule.owns + s.runs.length
  live_le : live s ≤ 1
  polling : live s = 1 → ∀ i < s.calls, results i = false
  ended : live s = 0 → (∃ k, s.calls = k + 1 ∧ results k = true ∧ ∀ i < k, results i = false) ∨
    AtRest s ∧ ∀ i < s.calls, results i = false

section Step
variable {results : ℕ → Bool} {s s' : State}

theorem init_sound : Sound results init where
  owners_eq := rfl
  live_le := Nat.le_refl 1
  polling := by simp [init]
  ended := by simp [live, init]

theorem Sound.never_after (h : Sound results s) : ∀ i, i + 1 < s.calls → results i = false := by
  intro i hi
  rcases Nat.eq_zero_or_pos (live s) with hlive | hlive
  · rcases h.ended hlive with ⟨k, hk, -, hbefore⟩ | ⟨-, hall⟩
    · exact hbefore i (by omega)
    · exact hall i (by omega)
  · have hone : live s = 1 := Nat.le_antisymm h.live_le hlive
    exact h.polling hone i (by omega)

/-- The first call that returns true is the last. -/
theorem polls_of (hafter : ∀ i, i + 1 < s.calls → results i = false)
    (huntil : AtRest s → ∃ k, s.calls = k + 1 ∧ results k = true) : Polls results s where
  never_after := hafter
  until_true := huntil
  exactly k htrue hfirst := by
    have hle : s.calls ≤ k + 1 := by
      by_contra hgt
      rw [hafter k (by omega)] at htrue
      cases htrue
    refine ⟨hle, fun hrest => ?_⟩
    obtain ⟨j, hj, hjtrue⟩ := huntil hrest
    have hkj : k ≤ j := by
      by_contra hlt
      rw [hfirst j (by omega)] at hjtrue
      cases hjtrue
    omega

theorem runs_ne_nil {r : ℕ} {p : Run} (hr : s.runs[r]? = some p) : ¬ AtRest s := by
  rintro ⟨-, -, hruns⟩
  simp [hruns] at hr

/-- The chances, when one `Run` goes on or ends. -/
theorem active_set {r : ℕ} {p : Run} (p' : Run) (hr : s.runs[r]? = some p) :
    (s.runs.set r p').countP Run.isActive + one p.isActive =
      s.runs.countP Run.isActive + one p'.isActive :=
  countP_set_add p' hr

theorem active_eraseIdx {r : ℕ} {p : Run} (hr : s.runs[r]? = some p) :
    (s.runs.eraseIdx r).countP Run.isActive + one p.isActive = s.runs.countP Run.isActive :=
  countP_eraseIdx_add hr

theorem step_owners {e : Event} (hst : step results s e = some s')
    (h : s.owners = one s.schedule.owns + s.runs.length) :
    s'.owners = one s'.schedule.owns + s'.runs.length := by
  cases step_cases hst with
  | add hmade => simpa [hmade, Schedule.owns] using h
  | returns hadded =>
    simp only [hadded, Schedule.owns, one_true] at h
    simp only [Schedule.owns, one_false]
    omega
  | start hwaiting howned =>
    simp only [List.length_append, List.length_singleton]
    omega
  | lapse => exact h
  | call r hr => simpa using h
  | reschedule r hr => simpa using h
  | release r hr =>
    have hlen := List.length_eraseIdx_add_one (List.getElem?_eq_some_iff.mp hr).1
    simp only
    omega

/-- Apart from a call, a step that keeps to the rule leaves the chances as they are. -/
theorem step_live {e : Event} (hst : step results s e = some s') (howned : Owned s e)
    (hcall : ∀ r, e ≠ .call r) : live s' = live s ∧ s'.calls = s.calls ∧ ¬ AtRest s := by
  cases step_cases hst with
  | add hmade =>
    refine ⟨?_, rfl, fun hrest => by cases hmade.symm.trans hrest.1⟩
    simp only [live, hmade, decide_true, one_true, reduceCtorEq, decide_false, one_false]
    omega
  | returns hadded =>
    refine ⟨?_, rfl, fun hrest => by cases hadded.symm.trans hrest.1⟩
    simp [live, hadded]
  | start hwaiting hpos =>
    refine ⟨?_, rfl, fun hrest => Nat.ne_of_gt hwaiting hrest.2.1⟩
    simp only [live, List.countP_append, List.countP_singleton, Run.isActive, if_true]
    omega
  | lapse hwaiting hnone => exact absurd howned hnone
  | call r => exact absurd rfl (hcall r)
  | reschedule r hr =>
    have hcount := active_set .releasing hr
    simp only [Run.isActive, one_true, one_false] at hcount
    refine ⟨?_, rfl, runs_ne_nil hr⟩
    simp only [live]
    omega
  | release r hr =>
    have hcount := active_eraseIdx hr
    simp only [Run.isActive, one_false] at hcount
    refine ⟨?_, rfl, runs_ne_nil hr⟩
    simp only [live]
    omega

/-- A task finds nobody who owns the object: the last chance is gone. -/
theorem Sound.lose (h : Sound results s) (hwaiting : 0 < s.waiting) (hnone : s.owners = 0) :
    AtRest { s with waiting := s.waiting - 1 } ∧ ∀ i < s.calls, results i = false := by
  have howners := h.owners_eq
  have hruns : s.runs = [] := List.length_eq_zero_iff.mp (by omega)
  have hreturned : s.schedule = .returned := by
    cases hs : s.schedule with
    | returned => rfl
    | _ => simp [hs, Schedule.owns, hnone] at howners; omega
  have hlive : live s = s.waiting := by simp [live, hreturned, hruns]
  have hle := h.live_le
  exact ⟨⟨hreturned, by simp only; omega, hruns⟩, h.polling (by omega)⟩

theorem lost_start {e : Event} (hst : step results s e = some s') (h : Sound results s)
    (hlost : ¬ Owned s e) :
    AtRest s' ∧ (∀ i < s.calls, results i = false) ∧ s'.calls = s.calls := by
  cases step_cases hst with
  | start hwaiting howned => exact absurd howned hlost
  | lapse hwaiting hnone =>
    obtain ⟨hrest, hall⟩ := h.lose hwaiting (Nat.le_zero.mp (Nat.le_of_not_lt hnone))
    exact ⟨hrest, hall, rfl⟩
  | _ => exact absurd trivial hlost

theorem Sound.call (h : Sound results s) {r : ℕ} (hr : s.runs[r]? = some .locked) :
    Sound results { s with
      calls := s.calls + 1
      runs := s.runs.set r (afterCall (results s.calls)) } := by
  have hcount := active_set (afterCall (results s.calls)) hr
  have hpos : 0 < s.runs.countP Run.isActive :=
    List.countP_pos_iff.mpr ⟨_, List.mem_of_getElem? hr, rfl⟩
  have hlive : live s = one (s.schedule = .made) + s.waiting + s.runs.countP Run.isActive := rfl
  have hone : live s = 1 := Nat.le_antisymm h.live_le (by omega)
  have hall := h.polling hone
  have howners := h.owners_eq
  cases hres : results s.calls with
  | true =>
    simp only [hres, afterCall, if_true, Run.isActive, one_true, one_false] at hcount ⊢
    have hnone : live { s with calls := s.calls + 1, runs := s.runs.set r .releasing } = 0 := by
      simp only [live]
      omega
    constructor
    case owners_eq => simpa using howners
    case live_le => exact hnone ▸ Nat.zero_le 1
    case polling => simp [hnone]
    case ended => exact fun _ => .inl ⟨s.calls, rfl, hres, hall⟩
  | false =>
    simp only [hres, afterCall, Bool.false_eq_true, if_false, Run.isActive, one_true] at hcount ⊢
    have hsame : live { s with calls := s.calls + 1, runs := s.runs.set r .rescheduling } = 1 := by
      simp only [live]
      omega
    constructor
    case owners_eq => simpa using howners
    case live_le => exact hsame ▸ Nat.le_refl 1
    case polling =>
      intro _ i hi
      rcases Nat.lt_succ_iff_lt_or_eq.mp hi with hi | rfl
      · exact hall i hi
      · exact hres
    case ended => simp [hsame]

theorem step_sound {e : Event} (hst : step results s e = some s') (h : Sound results s) :
    Sound results s' := by
  have howners := step_owners hst h.owners_eq
  by_cases hcall : ∃ r, e = .call r
  · obtain ⟨r, rfl⟩ := hcall
    cases step_cases hst with
    | call r hr => exact h.call hr
  by_cases howned : Owned s e
  · obtain ⟨hlive, hcalls, hrest⟩ := step_live hst howned fun r he => hcall ⟨r, he⟩
    constructor
    case owners_eq => exact howners
    case live_le => exact hlive ▸ h.live_le
    case polling => rw [hlive, hcalls]; exact h.polling
    case ended =>
      rw [hlive, hcalls]
      exact fun hnone => .inl ((h.ended hnone).resolve_right fun hlost => hrest hlost.1)
  · obtain ⟨hrest, hall, hcalls⟩ := lost_start hst h howned
    have hnone : live s' = 0 := by simp [live, hrest.1, hrest.2.1, hrest.2.2]
    constructor
    case owners_eq => exact howners
    case live_le => exact hnone ▸ Nat.zero_le 1
    case polling => simp [hnone]
    case ended => exact fun _ => .inr ⟨hrest, hcalls ▸ hall⟩

/-- The property is kept exactly by the steps that keep to the rule. -/
theorem step_polls_iff {e : Event} (hst : step results s e = some s') (h : Sound results s) :
    Polls results s' ↔ Owned s e := by
  have h' := step_sound hst h
  by_cases howned : Owned s e
  · refine iff_of_true (polls_of h'.never_after fun hrest => ?_) howned
    have hnone : live s' = 0 := by simp [live, hrest.1, hrest.2.1, hrest.2.2]
    rcases h'.ended hnone with ⟨k, hk, htrue, -⟩ | ⟨-, hall⟩
    · exact ⟨k, hk, htrue⟩
    · -- nothing was lost by this step, and nothing before
      by_cases hcall : ∃ r, e = .call r
      · obtain ⟨r, rfl⟩ := hcall
        cases step_cases hst with
        | call r hr =>
          have hlen : s.runs.length = 0 := by simpa using congrArg List.length hrest.2.2
          simp [List.length_eq_zero_iff.mp hlen] at hr
      · obtain ⟨hlive, hcalls, hrest⟩ := step_live hst howned fun r he => hcall ⟨r, he⟩
        rw [hlive] at hnone
        obtain ⟨k, hk, htrue, -⟩ := (h.ended hnone).resolve_right fun hlost => hrest hlost.1
        exact ⟨k, hcalls.trans hk, htrue⟩
  · refine iff_of_false (fun hp' => ?_) howned
    obtain ⟨hrest, hall, hcalls⟩ := lost_start hst h howned
    obtain ⟨k, hk, htrue⟩ := hp'.until_true hrest
    rw [hall k (by omega)] at htrue
    cases htrue

end Step

theorem init_polls (results : ℕ → Bool) : Polls results init :=
  polls_of (by simp [init]) (by simp [AtRest, init])

/-- Whatever the calls return and whenever the tasks run: the function is polled until it
returns true, and no longer, if and only if every task is run while `Schedule` or an earlier
`Run` still owns the object. -/
theorem injection_polls_iff (results : ℕ → Bool) (es : List Event) :
    Always (step results) (Polls results) es init ↔ Obeys (step results) Owned es init :=
  always_iff_obeys (fun _ _ _ hst h => step_sound hst h)
    (fun _ _ _ hst h _ => step_polls_iff hst h) init_sound (init_polls results)

/-- `Schedule` returns before its task is run: a function that would succeed at the fifth
call is never called. -/
theorem injection_never_called :
    run (step fun i => i == 4) (fun _ _ => True) [.add, .return, .start] init =
        some ⟨.returned, 0, 0, [], 0⟩ ∧
      ¬ Always (step fun i => i == 4) (Polls fun i => i == 4) [.add, .return, .start] init := by
  have hrun : run (step fun i => i == 4) (fun _ _ => True) [.add, .return, .start] init =
      some ⟨.returned, 0, 0, [], 0⟩ := rfl
  refine ⟨hrun, fun h => ?_⟩
  obtain ⟨k, hk, -⟩ := (h.run hrun).until_true ⟨rfl, rfl, rfl⟩
  cases hk

/-! ### The next call -/

def Schedule.rank : Schedule → ℕ
  | made => 4
  | added => 1
  | returned => 0

/-- Steps that can come before the next call. -/
def rank (s : State) : ℕ :=
  s.schedule.rank + 2 * s.waiting + s.runs.length + 3 * s.runs.countP Run.isRescheduling

section Next
variable {results : ℕ → Bool} {s s' : State}

/-- Until things are at rest something goes on. -/
theorem exists_step (h : ¬ AtRest s) : ∃ e s', step results s e = some s' := by
  cases hs : s.schedule with
  | made => exact ⟨.add, _, by rw [step, if_pos hs]⟩
  | added => exact ⟨.return, _, by rw [step, if_pos hs]⟩
  | returned =>
    rcases Nat.eq_zero_or_pos s.waiting with hw | hw
    · cases hruns : s.runs with
      | nil => exact absurd ⟨hs, hw, hruns⟩ h
      | cons p rest =>
        have hr : s.runs[0]? = some p := by rw [hruns, List.getElem?_cons_zero]
        cases p with
        | locked => exact ⟨.call 0, _, by rw [step, if_pos hr]⟩
        | rescheduling => exact ⟨.reschedule 0, _, by rw [step, if_pos hr]⟩
        | releasing => exact ⟨.release 0, _, by rw [step, if_pos hr]⟩
    · by_cases howned : 0 < s.owners
      · exact ⟨.start, _, by rw [step, if_pos hw, if_pos howned]⟩
      · exact ⟨.start, _, by rw [step, if_pos hw, if_neg howned]⟩

/-- Only so many steps come before the next call. -/
theorem rank_lt {e : Event} (hst : step results s e = some s') (hcall : ∀ r, e ≠ .call r) :
    rank s' < rank s := by
  cases step_cases hst with
  | add hmade =>
    simp only [rank, hmade, Schedule.rank]
    omega
  | returns hadded =>
    simp only [rank, hadded, Schedule.rank]
    omega
  | start hwaiting howned =>
    simp only [rank, List.length_append, List.length_singleton, List.countP_append,
      List.countP_singleton, Run.isRescheduling, Bool.false_eq_true, if_false]
    omega
  | lapse hwaiting hnone =>
    simp only [rank]
    omega
  | call r => exact absurd rfl (hcall r)
  | reschedule r hr =>
    have hcount : (s.runs.set r .releasing).countP Run.isRescheduling + one true =
        s.runs.countP Run.isRescheduling + one false := countP_set_add .releasing hr
    simp only [one_true, one_false] at hcount
    simp only [rank, List.length_set]
    omega
  | release r hr =>
    have hcount : (s.runs.eraseIdx r).countP Run.isRescheduling + one false =
        s.runs.countP Run.isRescheduling := countP_eraseIdx_add hr
    have hlen := List.length_eraseIdx_add_one (List.getElem?_eq_some_iff.mp hr).1
    simp only [one_false] at hcount
    simp only [rank]
    omega

/-- Until things are at rest the function is called again: so many steps later at most. -/
theorem goes_on (h : ¬ AtRest s) :
    ∃ e s', step results s e = some s' ∧ ((∃ r, e = .call r) ∨ rank s' < rank s) := by
  obtain ⟨e, s', hst⟩ := exists_step h
  refine ⟨e, s', hst, ?_⟩
  by_cases hcall : ∃ r, e = .call r
  · exact .inl hcall
  · exact .inr (rank_lt hst fun r he => hcall ⟨r, he⟩)

end Next

end IoTDrive.Framework.Injection
