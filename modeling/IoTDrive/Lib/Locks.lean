import IoTDrive.Lib.Transition
import Mathlib.Data.List.Basic
import Mathlib.Logic.Function.Basic
import Mathlib.Logic.Relation
import Mathlib.Order.Basic

/-! Threads and mutexes. A thread runs one call at a time, and a call is the sequence of
lock operations on its path; an acquisition of a mutex that is held does not
happen, and the thread waits. The discipline is a rank: a call acquires a mutex only while
everything it holds has a smaller rank, and releases in reverse order. If
every call keeps it, no thread ever waits for itself, directly or through others. -/

namespace IoTDrive.Lib

/-- An operation on a mutex. -/
inductive LockOp (L : Type*) where
  | acquire (l : L)
  | release (l : L)
  deriving DecidableEq, Repr

/-- The path of a call whose body runs under a mutex. -/
def locked {L : Type*} (l : L) (body : List (LockOp L)) : List (LockOp L) :=
  .acquire l :: (body ++ [.release l])

/-- Who holds each mutex, and what each thread has still to do in its call. -/
structure LockState (T L : Type*) where
  holder : L → Option T
  todo : T → List (LockOp L)

/-- A thread starts a call, or takes its next step. -/
inductive LockEvent (T C : Type*) where
  | start (t : T) (call : C)
  | next (t : T)
  deriving DecidableEq, Repr

namespace LockState

variable {T L C ρ : Type*}

def init : LockState T L := ⟨fun _ => none, fun _ => []⟩

section Step
variable [DecidableEq T] [DecidableEq L]

/-- `path` gives the operations of a call. -/
def step (path : C → List (LockOp L)) (s : LockState T L) :
    LockEvent T C → Option (LockState T L)
  | .start t call =>
    if s.todo t = [] then some { s with todo := Function.update s.todo t (path call) } else none
  | .next t =>
    match s.todo t with
    | [] => none
    | .acquire l :: ops =>
      if s.holder l = none then
        some ⟨Function.update s.holder l (some t), Function.update s.todo t ops⟩
      else none
    | .release l :: ops =>
      some ⟨Function.update s.holder l none, Function.update s.todo t ops⟩

end Step

/-- Thread `t` waits for a mutex that `t'` holds. -/
def WaitsFor (s : LockState T L) (t t' : T) : Prop :=
  ∃ l ops, s.todo t = .acquire l :: ops ∧ s.holder l = some t'

/-- A thread waits for itself, directly or along other waiting threads. -/
def Deadlocked (s : LockState T L) : Prop := ∃ t, Relation.TransGen s.WaitsFor t t

/-! ### The discipline -/

variable [Preorder ρ] (rank : L → ρ)

/-- From the mutexes held, innermost first, the operations acquire upwards, release in
reverse order and end with nothing held. -/
def Ordered : List L → List (LockOp L) → Prop
  | held, [] => held = []
  | held, .acquire l :: ops => (∀ h ∈ held, rank h < rank l) ∧ Ordered (l :: held) ops
  | held, .release l :: ops => ∃ rest, held = l :: rest ∧ Ordered rest ops

/-- Operations that can be run above whatever is bounded by `bound`, and give back all they
take. -/
def Above (bound : L → Prop) (ops : List (LockOp L)) : Prop := ∀ held rest,
  (∀ h ∈ held, bound h) → Ordered rank held rest → Ordered rank held (ops ++ rest)

variable {rank} {bound : L → Prop} {l : L} {xs ys body : List (LockOp L)}

theorem above_nil : Above rank bound ([] : List (LockOp L)) := fun _ _ _ h => h

theorem Above.append (hx : Above rank bound xs) (hy : Above rank bound ys) :
    Above rank bound (xs ++ ys) := by
  intro held rest hb h
  rw [List.append_assoc]
  exact hx held _ hb (hy held rest hb h)

/-- A call under a mutex: the mutex is above what is held, and the body above the mutex. -/
theorem above_locked (hl : ∀ h, bound h → rank h < rank l)
    (hbody : Above rank (fun h => rank h ≤ rank l) body) : Above rank bound (locked l body) := by
  intro held rest hb h
  simp only [locked, List.cons_append, List.append_assoc, Ordered]
  refine ⟨fun x hx => hl x (hb x hx), hbody (l :: held) _ ?_ ⟨held, rfl, h⟩⟩
  intro x hx
  rcases List.mem_cons.mp hx with rfl | hx
  · exact le_refl _
  · exact (hl x (hb x hx)).le

theorem Above.ordered (h : Above rank (fun _ => False) xs) : Ordered rank [] xs := by
  simpa using h [] [] (by simp) rfl

/-! ### Runs -/

/-- The mutexes each thread holds, innermost first and in descending rank, as its remaining
operations expect them. -/
structure Disciplined (rank : L → ρ) (s : LockState T L) (held : T → List L) : Prop where
  holder : ∀ l t, s.holder l = some t ↔ l ∈ held t
  descending : ∀ t, (held t).Pairwise fun a b => rank b < rank a
  ordered : ∀ t, Ordered rank (held t) (s.todo t)

theorem init_disciplined : Disciplined rank (init : LockState T L) fun _ => [] :=
  ⟨by simp [init], fun _ => List.Pairwise.nil, fun _ => rfl⟩

section Run
variable [DecidableEq T] [DecidableEq L] {s s' : LockState T L} {held : T → List L} {t : T}
  {ops : List (LockOp L)}

omit [DecidableEq L] in
theorem Disciplined.start (h : Disciplined rank s held) (hidle : s.todo t = [])
    (hops : Ordered rank [] ops) :
    Disciplined rank { s with todo := Function.update s.todo t ops } held := by
  refine ⟨h.holder, h.descending, fun u => ?_⟩
  by_cases hu : u = t
  · subst hu
    have hnil : held u = [] := by simpa [hidle, Ordered] using h.ordered u
    simpa [hnil] using hops
  · simpa [hu] using h.ordered u

theorem Disciplined.acquire (h : Disciplined rank s held) (htodo : s.todo t = .acquire l :: ops)
    (hfree : s.holder l = none) :
    Disciplined rank ⟨Function.update s.holder l (some t), Function.update s.todo t ops⟩
      (Function.update held t (l :: held t)) := by
  have ht := h.ordered t
  rw [htodo] at ht
  constructor
  case holder =>
    intro l' u
    by_cases hl : l' = l
    · subst hl
      by_cases hu : u = t
      · simp [hu]
      · have hnot : l' ∉ held u := fun hmem => by
          rw [(h.holder l' u).mpr hmem] at hfree
          cases hfree
        simp [hu, hnot, Ne.symm hu]
    · by_cases hu : u = t
      · subst hu
        simp [hl, h.holder]
      · simp [hl, hu, h.holder]
  case descending =>
    intro u
    by_cases hu : u = t
    · subst hu
      simpa using ⟨ht.1, h.descending u⟩
    · simpa [hu] using h.descending u
  case ordered =>
    intro u
    by_cases hu : u = t
    · subst hu
      simpa using ht.2
    · simpa [hu] using h.ordered u

theorem Disciplined.release (h : Disciplined rank s held) (htodo : s.todo t = .release l :: ops) :
    Disciplined rank ⟨Function.update s.holder l none, Function.update s.todo t ops⟩
      (Function.update held t (held t).tail) := by
  have ht := h.ordered t
  rw [htodo] at ht
  obtain ⟨rest, hheld, hrest⟩ := ht
  have hdesc := h.descending t
  rw [hheld, List.pairwise_cons] at hdesc
  have hmine : s.holder l = some t := (h.holder l t).mpr (by simp [hheld])
  constructor
  case holder =>
    intro l' u
    by_cases hl : l' = l
    · -- nobody else holds it, and `t` held it once
      subst hl
      by_cases hu : u = t
      · subst hu
        have hnot : l' ∉ rest := fun hmem => lt_irrefl _ (hdesc.1 l' hmem)
        simp [hheld, hnot]
      · have hnot : l' ∉ held u := fun hmem => hu
          (Option.some.inj (((h.holder l' u).mpr hmem).symm.trans hmine))
        simp [hu, hnot]
    · by_cases hu : u = t
      · subst hu
        simp [hl, h.holder, hheld]
      · simp [hl, hu, h.holder]
  case descending =>
    intro u
    by_cases hu : u = t
    · subst hu
      simpa [hheld] using hdesc.2
    · simpa [hu] using h.descending u
  case ordered =>
    intro u
    by_cases hu : u = t
    · subst hu
      simpa [hheld] using hrest
    · simpa [hu] using h.ordered u

theorem step_disciplined {path : C → List (LockOp L)} (hpath : ∀ c, Ordered rank [] (path c))
    {e : LockEvent T C} (hst : step path s e = some s') (h : ∃ held, Disciplined rank s held) :
    ∃ held, Disciplined rank s' held := by
  obtain ⟨held, hs⟩ := h
  cases e with
  | start t call =>
    simp only [step] at hst
    split_ifs at hst with hidle
    obtain rfl := Option.some.inj hst
    exact ⟨held, hs.start hidle (hpath call)⟩
  | next t =>
    simp only [step] at hst
    split at hst
    · cases hst
    · next l ops htodo =>
      split_ifs at hst with hfree
      obtain rfl := Option.some.inj hst
      exact ⟨_, hs.acquire htodo hfree⟩
    · next l ops htodo =>
      obtain rfl := Option.some.inj hst
      exact ⟨_, hs.release htodo⟩

end Run

/-- A thread that holds a mutex waits for a higher one. -/
theorem Disciplined.lt_of_holder {s : LockState T L} {held : T → List L}
    (h : Disciplined rank s held) {t : T} {l l' : L} {ops : List (LockOp L)}
    (hholder : s.holder l = some t) (htodo : s.todo t = .acquire l' :: ops) :
    rank l < rank l' := by
  have ht := h.ordered t
  rw [htodo] at ht
  exact ht.1 l ((h.holder l t).mp hholder)

/-- Along a chain of waiting threads the ranks of the wanted mutexes go up. -/
theorem Disciplined.rank_lt {s : LockState T L} {held : T → List L} (h : Disciplined rank s held)
    {t t' : T} (hw : Relation.TransGen s.WaitsFor t t') {l l' : L} {ops ops' : List (LockOp L)}
    (ht : s.todo t = .acquire l :: ops) (ht' : s.todo t' = .acquire l' :: ops') :
    rank l < rank l' := by
  induction hw generalizing l' ops' with
  | single hwait =>
    obtain ⟨m, _, hm, hholder⟩ := hwait
    obtain rfl : l = m := by
      rw [ht] at hm
      exact LockOp.acquire.inj (List.cons.inj hm).1
    exact h.lt_of_holder hholder ht'
  | tail _ hwait ih =>
    obtain ⟨m, _, hm, hholder⟩ := hwait
    exact (ih hm).trans (h.lt_of_holder hholder ht')

theorem Disciplined.not_deadlocked {s : LockState T L} {held : T → List L}
    (h : Disciplined rank s held) : ¬ s.Deadlocked := by
  rintro ⟨t, hcycle⟩
  obtain ⟨u, ⟨l, ops, hl, -⟩, -⟩ := Relation.TransGen.head'_iff.mp hcycle
  exact lt_irrefl _ (h.rank_lt hcycle hl hl)

/-- Calls that keep the discipline never deadlock. -/
theorem run_not_deadlocked [DecidableEq T] [DecidableEq L] {path : C → List (LockOp L)}
    {guard : LockState T L → LockEvent T C → Prop} [∀ s e, Decidable (guard s e)]
    (hpath : ∀ c, Ordered rank [] (path c)) {es : List (LockEvent T C)} {s : LockState T L}
    (hrun : run (step path) guard es init = some s) : ¬ s.Deadlocked := by
  obtain ⟨held, hs⟩ := run_invariant
    (fun _ _ _ _ hst h => step_disciplined hpath hst h) hrun ⟨_, init_disciplined⟩
  exact hs.not_deadlocked

end LockState

end IoTDrive.Lib
