import Mathlib.Data.Nat.Notation
import Mathlib.Tactic.SplitIfs
import Mathlib.Tactic.TypeStar

/-! Guarded executions of a partial transition function. A step function maps a
state and an action to the next state, or to nothing where the action is not
enabled. A guard says which actions an environment may take in which state. A
run is a list of actions taken one after another, each allowed by the guard and
enabled. The rules below split a run and carry an invariant
along it. -/

namespace IoTDrive.Lib

variable {σ α : Type*}

/-- The state after a list of actions, each allowed by the guard and enabled. -/
def run (step : σ → α → Option σ) (guard : σ → α → Prop) [∀ s a, Decidable (guard s a)] :
    List α → σ → Option σ
  | [], s => some s
  | a :: as, s => if guard s a then (step s a).bind (run step guard as) else none

section Run
variable {step : σ → α → Option σ} {guard : σ → α → Prop} [∀ s a, Decidable (guard s a)]

@[simp] theorem run_nil (s : σ) : run step guard [] s = some s := rfl

theorem run_cons {a : α} {as : List α} {s s' : σ} :
    run step guard (a :: as) s = some s' ↔
      guard s a ∧ ∃ m, step s a = some m ∧ run step guard as m = some s' := by
  simp only [run]
  split_ifs with hg
  · simp [hg, Option.bind_eq_some_iff]
  · simp [hg]

theorem run_append {as bs : List α} {s : σ} :
    run step guard (as ++ bs) s = (run step guard as s).bind (run step guard bs) := by
  induction as generalizing s with
  | nil => rfl
  | cons a as ih =>
    simp only [List.cons_append, run]
    split_ifs with hg
    · cases step s a with
      | none => rfl
      | some m => exact ih
    · rfl

/-- The last action of a run. -/
theorem run_concat {as : List α} {a : α} {s : σ} :
    run step guard (as ++ [a]) s =
      (run step guard as s).bind fun m => if guard m a then step m a else none := by
  rw [run_append]
  congr 1
  funext m
  unfold run
  split_ifs with hg
  · exact Option.bind_fun_some _
  · rfl

theorem run_snoc {as : List α} {a : α} {s m s' : σ} (h : run step guard as s = some m)
    (hg : guard m a) (hs : step m a = some s') : run step guard (as ++ [a]) s = some s' := by
  rw [run_concat, h, Option.bind_some, if_pos hg, hs]

/-- What every allowed step preserves holds at the end of every run. -/
theorem run_invariant {P : σ → Prop}
    (hstep : ∀ s a s', guard s a → step s a = some s' → P s → P s') :
    ∀ {as : List α} {s s' : σ}, run step guard as s = some s' → P s → P s'
  | [], s, s', h, hs => by
    simp only [run_nil, Option.some.injEq] at h
    exact h ▸ hs
  | a :: as, s, s', h, hs => by
    obtain ⟨hg, m, hm, hr⟩ := run_cons.mp h
    exact run_invariant hstep hr (hstep s a m hg hm hs)

/-- A run under a guard is a run under every weaker one. -/
theorem run_mono {weaker : σ → α → Prop} [∀ s a, Decidable (weaker s a)]
    (hw : ∀ s a, guard s a → weaker s a) :
    ∀ {as : List α} {s s' : σ}, run step guard as s = some s' → run step weaker as s = some s'
  | [], _, _, h => h
  | a :: as, s, s', h => by
    obtain ⟨hg, m, hm, hr⟩ := run_cons.mp h
    exact run_cons.mpr ⟨hw s a hg, m, hm, run_mono hw hr⟩

/-- Steps that each lower a rank: a run of them is no longer than the rank at its beginning. -/
theorem run_rank {P : σ → Prop} {Q : α → Prop} (rank : σ → ℕ)
    (hstep : ∀ s a s', guard s a → Q a → step s a = some s' → P s → P s' ∧ rank s' < rank s) :
    ∀ {as : List α} {s s' : σ}, run step guard as s = some s' → (∀ a ∈ as, Q a) → P s →
      P s' ∧ rank s' + as.length ≤ rank s
  | [], s, s', h, _, hs => by
    obtain rfl := Option.some.inj h
    exact ⟨hs, Nat.le_refl _⟩
  | a :: as, s, s', h, hQ, hs => by
    obtain ⟨hg, m, hm, hr⟩ := run_cons.mp h
    obtain ⟨hp, hlt⟩ := hstep s a m hg (hQ a List.mem_cons_self) hm hs
    obtain ⟨hp', hle⟩ := run_rank rank hstep hr (fun b hb => hQ b (List.mem_cons_of_mem a hb)) hp
    refine ⟨hp', ?_⟩
    rw [List.length_cons]
    omega

/-- A property that each step keeps exactly if a guard allows the step: at the end of a run
it tells whether the guard has allowed every step of it. -/
theorem run_exact {I P : σ → Prop}
    (hI : ∀ s a s', step s a = some s' → I s → I s')
    (hP : ∀ s a s', step s a = some s' → I s → (P s' ↔ P s ∧ guard s a)) :
    ∀ {as : List α} {s s' : σ}, run step (fun _ _ => True) as s = some s' → I s →
      (P s' ↔ P s ∧ run step guard as s = some s')
  | [], s, s', h, _ => by
    rw [run_nil, Option.some.injEq] at h
    simp [h]
  | a :: as, s, s', h, hs => by
    obtain ⟨-, m, hm, hr⟩ := run_cons.mp h
    rw [run_exact hI hP hr (hI s a m hm hs), hP s a m hm hs, run_cons]
    constructor
    · rintro ⟨⟨hp, hg⟩, hrun⟩
      exact ⟨hp, hg, m, hm, hrun⟩
    · rintro ⟨hp, hg, m', hm', hrun⟩
      obtain rfl := Option.some.inj (hm.symm.trans hm')
      exact ⟨⟨hp, hg⟩, hrun⟩

end Run

/-- The steps that a guard allows. -/
def restrict (step : σ → α → Option σ) (guard : σ → α → Prop) [∀ s a, Decidable (guard s a)]
    (s : σ) (a : α) : Option σ := if guard s a then step s a else none

theorem restrict_eq_some {step : σ → α → Option σ} {guard : σ → α → Prop}
    [∀ s a, Decidable (guard s a)] {s s' : σ} {a : α} :
    restrict step guard s a = some s' ↔ guard s a ∧ step s a = some s' := by
  unfold restrict
  split_ifs with hg
  · simp [hg]
  · simp [hg]

/-! ### Properties of all states of an execution -/

/-- `P` holds in every state that the enabled actions of a list lead through. -/
def Always (step : σ → α → Option σ) (P : σ → Prop) : List α → σ → Prop
  | [], s => P s
  | a :: as, s => P s ∧ ∀ m, step s a = some m → Always step P as m

/-- Every enabled action of a list is allowed by the rule in the state it is taken in. -/
def Obeys (step : σ → α → Option σ) (rule : σ → α → Prop) : List α → σ → Prop
  | [], _ => True
  | a :: as, s => ∀ m, step s a = some m → rule s a ∧ Obeys step rule as m

/-- Every enabled action of a list is allowed by the rule after the actions before it. -/
def ObeysAfter (step : σ → α → Option σ) (rule : List α → α → Prop) :
    List α → List α → σ → Prop
  | _, [], _ => True
  | before, a :: as, s =>
    ∀ m, step s a = some m → rule before a ∧ ObeysAfter step rule (before ++ [a]) as m

section Always
variable {step : σ → α → Option σ}

theorem Always.head {P : σ → Prop} {as : List α} {s : σ} (h : Always step P as s) : P s := by
  cases as with
  | nil => exact h
  | cons a as => exact h.1

theorem Always.imp {P Q : σ → Prop} (hpq : ∀ s, P s → Q s) {as : List α} {s : σ}
    (h : Always step P as s) : Always step Q as s := by
  induction as generalizing s with
  | nil => exact hpq s h
  | cons a as ih => exact ⟨hpq s h.1, fun m hm => ih (h.2 m hm)⟩

theorem Always.run {P : σ → Prop} {as : List α} {s s' : σ} (h : Always step P as s)
    (hrun : run step (fun _ _ => True) as s = some s') : P s' := by
  induction as generalizing s with
  | nil => exact Option.some.inj hrun ▸ h
  | cons a as ih =>
    obtain ⟨-, m, hm, hrest⟩ := run_cons.mp hrun
    exact ih (h.2 m hm) hrest

/-- A run under the rule obeys it. -/
theorem obeys_of_run {rule : σ → α → Prop} [∀ s a, Decidable (rule s a)] {as : List α} {s : σ}
    (h : (Lib.run step rule as s).isSome = true) : Obeys step rule as s := by
  induction as generalizing s with
  | nil => trivial
  | cons a as ih =>
    obtain ⟨s', hs'⟩ := Option.isSome_iff_exists.mp h
    obtain ⟨hrule, m, hm, hrest⟩ := run_cons.mp hs'
    intro m' hm'
    obtain rfl := Option.some.inj (hm.symm.trans hm')
    exact ⟨hrule, ih (by rw [hrest]; rfl)⟩

/-- What every allowed step preserves holds in every state of an execution that obeys. -/
theorem always_of_obeys {rule : σ → α → Prop} {I : σ → Prop}
    (hI : ∀ s a s', rule s a → step s a = some s' → I s → I s') {as : List α} {s : σ}
    (h : Obeys step rule as s) (hs : I s) : Always step I as s := by
  induction as generalizing s with
  | nil => exact hs
  | cons a as ih =>
    refine ⟨hs, fun m hm => ?_⟩
    obtain ⟨hrule, hrest⟩ := h m hm
    exact ih hrest (hI s a m hrule hm hs)

/-- A property that a step keeps exactly if the rule allows the step holds throughout exactly
if every step is allowed. -/
theorem always_iff_obeys {rule : σ → α → Prop} {I P : σ → Prop}
    (hI : ∀ s a s', step s a = some s' → I s → I s')
    (hP : ∀ s a s', step s a = some s' → I s → P s → (P s' ↔ rule s a)) {as : List α} {s : σ}
    (hs : I s) (hp : P s) : Always step P as s ↔ Obeys step rule as s := by
  induction as generalizing s with
  | nil => exact iff_of_true hp trivial
  | cons a as ih =>
    constructor
    · intro h m hm
      have hpm : P m := (h.2 m hm).head
      exact ⟨(hP s a m hm hs hp).mp hpm, (ih (hI s a m hm hs) hpm).mp (h.2 m hm)⟩
    · intro h
      refine ⟨hp, fun m hm => ?_⟩
      have hpm : P m := (hP s a m hm hs hp).mpr (h m hm).1
      exact (ih (hI s a m hm hs) hpm).mpr (h m hm).2

/-- The same for a rule on the actions before, when the state tells of them what the rule
asks for. -/
theorem always_iff_obeysAfter {rule : List α → α → Prop} {I : List α → σ → Prop} {P : σ → Prop}
    (hI : ∀ before s a s', step s a = some s' → I before s → P s → I (before ++ [a]) s')
    (hP : ∀ before s a s', step s a = some s' → I before s → P s → (P s' ↔ rule before a))
    {before as : List α} {s : σ} (hs : I before s) (hp : P s) :
    Always step P as s ↔ ObeysAfter step rule before as s := by
  induction as generalizing before s with
  | nil => exact iff_of_true hp trivial
  | cons a as ih =>
    constructor
    · intro h m hm
      have hpm : P m := (h.2 m hm).head
      exact ⟨(hP before s a m hm hs hp).mp hpm, (ih (hI before s a m hm hs hp) hpm).mp (h.2 m hm)⟩
    · intro h
      refine ⟨hp, fun m hm => ?_⟩
      have hpm : P m := (hP before s a m hm hs hp).mpr (h m hm).1
      exact (ih (hI before s a m hm hs hp) hpm).mpr (h m hm).2

end Always

end IoTDrive.Lib
