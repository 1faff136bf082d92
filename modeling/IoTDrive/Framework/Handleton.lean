import IoTDrive.Lib.Counting
import IoTDrive.Lib.Lookup
import IoTDrive.Lib.Owner
import IoTDrive.Lib.Transition
import Mathlib.Data.List.Nodup

/-! `Handleton`: one object of each type for the whole process. `GetInstance` is compiled
into every program image that uses it, so a type has one `once_flag` in each image; the
map and its mutex are shared. The steps of the threads come in any order. A constructor
may throw: the entry of its type is then in the map already, with no object in it, and the
flag is as before the call. No constructor calls `GetInstance` itself. The map is read behind
`call_once` without the mutex, so `at` may come upon the insertion of another type; what a
program does after that is not said. -/

namespace IoTDrive.Framework.Handleton

open Lib

/-- A call of `GetInstance`, from the code of one image. -/
structure Call where
  image : ℕ
  type : ℕ
  deriving DecidableEq, Repr

/-- A `once_flag`, with the thread that runs the lambda. -/
inductive Flag where
  | fresh
  | running (thread : ℕ)
  | done
  deriving DecidableEq, Repr

/-- Where a thread is in `GetInstance`. -/
inductive Phase where
  | idle
  /-- in `call_once`, before the lambda or behind another thread's -/
  | enters (c : Call)
  /-- in the lambda, before the lock -/
  | locks (c : Call)
  /-- with the lock, before `contains` -/
  | looks (c : Call)
  /-- no entry was found: before `m_handletons[&typeid(T)]` -/
  | inserts (c : Call)
  /-- the map gets the entry, and perhaps other buckets -/
  | rehashes (c : Call)
  /-- the entry is in the map and empty: in `new T` -/
  | constructs (c : Call)
  /-- before the lock is given back -/
  | unlocks (c : Call) (threw : Bool)
  /-- before the flag is set, or given up -/
  | settles (c : Call) (threw : Bool)
  /-- before `at` -/
  | reads (c : Call)
  /-- in `at` -/
  | searches (c : Call)
  deriving DecidableEq, Repr

namespace Phase

/-- The lambda of this call is running. -/
def inside : Phase → Option Call
  | locks c | looks c | inserts c | rehashes c | constructs c | unlocks c _ | settles c _ => some c
  | _ => none

/-- The thread has the mutex. -/
def holds : Phase → Bool
  | looks _ | inserts _ | rehashes _ | constructs _ | unlocks _ _ => true
  | _ => false

/-- The call that puts an entry into the map. -/
def inserting : Phase → Option Call
  | inserts c | rehashes c => some c
  | _ => none

/-- The thread changes the map. -/
def changes : Phase → Bool
  | rehashes _ => true
  | _ => false

/-- The thread reads the map without the mutex. -/
def looksUp : Phase → Bool
  | searches _ => true
  | _ => false

/-- The call that the thread is in. -/
def call : Phase → Option Call
  | idle => none
  | enters c | locks c | looks c | inserts c | rehashes c | constructs c | unlocks c _
  | settles c _ | reads c | searches c => some c

/-- The type whose constructor runs. -/
def making : Phase → Option ℕ
  | constructs c => some c.type
  | _ => none

/-- The type whose constructor has thrown, while the exception is on its way. -/
def throwing : Phase → Option ℕ
  | unlocks c true | settles c true => some c.type
  | _ => none

/-- The type whose constructor has run by now. -/
def past : Phase → Option ℕ
  | unlocks c _ | settles c _ | reads c | searches c => some c.type
  | _ => none

/-- The type whose entry is being written. -/
def writes : Phase → Option ℕ
  | rehashes c | constructs c => some c.type
  | _ => none

/-- The steps a call has left at most. -/
def left : Phase → ℕ
  | idle => 0
  | searches _ => 1
  | reads _ => 2
  | settles _ _ => 3
  | unlocks _ _ => 4
  | constructs _ => 5
  | rehashes _ => 6
  | inserts _ => 7
  | looks _ => 8
  | locks _ => 9
  | enters _ => 10

end Phase

/-- How a call ends: with the pointer of the entry, with the exception of the constructor,
or with the one of `at`. -/
inductive Answer where
  | pointer (p : Option ℕ)
  | threw
  | outOfRange
  deriving DecidableEq, Repr

/-- The map gives an entry to a type, and the entry has an object or none. Objects are
numbered as they are made. `made`, `thrown` and `answers` record which constructors have
returned, which have thrown, and how the calls have ended; no step reads the last two. `raced`
tells that one thread has changed the map while another one was in `at`. -/
structure State where
  flags : Call → Flag
  mtx : Option ℕ
  handletons : ℕ → Option (Option ℕ)
  threads : List Phase
  made : List ℕ
  thrown : List ℕ
  answers : List (ℕ × Answer)
  raced : Bool

inductive Event where
  | call (i : ℕ) (c : Call)
  /-- a thread takes its next step -/
  | next (i : ℕ)
  /-- a constructor returns, or throws -/
  | construct (i : ℕ) (throws : Bool)
  deriving DecidableEq, Repr

def Event.isCall : Event → Bool
  | call _ _ => true
  | _ => false

namespace State

def init (n : ℕ) : State :=
  ⟨fun _ => .fresh, none, fun _ => none, List.replicate n .idle, [], [], [], false⟩

def setPhase (s : State) (i : ℕ) (p : Phase) : State := { s with threads := s.threads.set i p }

/-- The flag of the call. -/
def setFlag (s : State) (c : Call) (f : Flag) : State :=
  { s with flags := Function.update s.flags c f }

/-- `at`, on the map as it is. -/
def atType (s : State) (type : ℕ) : Answer :=
  match s.handletons type with
  | some p => .pointer p
  | none => .outOfRange

/-- `m_handletons[&typeid(T)]` begins. -/
def rehash (s : State) (i : ℕ) (c : Call) : State :=
  { s.setPhase i (.rehashes c) with raced := s.threads.any Phase.looksUp }

/-- `at` begins. -/
def search (s : State) (i : ℕ) (c : Call) : State :=
  { s.setPhase i (.searches c) with raced := s.threads.any Phase.changes }

/-- `m_handletons[&typeid(T)]` has made the entry. -/
def insert (s : State) (i : ℕ) (c : Call) : State :=
  { s.setPhase i (.constructs c) with
    handletons := Function.update s.handletons c.type (some none) }

def ends (s : State) (i type : ℕ) (a : Answer) : State :=
  { s.setPhase i .idle with answers := s.answers ++ [(type, a)] }

/-- `call_once`: at most one thread is in the lambda, and the others wait for it. -/
def callOnce (s : State) (i : ℕ) (c : Call) : Option State :=
  match s.flags c with
  | .fresh => some ((s.setPhase i (.locks c)).setFlag c (.running i))
  | .running _ => none
  | .done => some (s.setPhase i (.reads c))

/-- The next step of a thread; nothing where it waits, and nothing in a constructor. -/
def advance (s : State) (i : ℕ) : Phase → Option State
  | .enters c => s.callOnce i c
  | .locks c => if s.mtx = none then some { s.setPhase i (.looks c) with mtx := some i } else none
  | .looks c =>
    some (s.setPhase i (if (s.handletons c.type).isSome then .unlocks c false else .inserts c))
  | .inserts c => some (s.rehash i c)
  | .rehashes c => some (s.insert i c)
  | .unlocks c threw => some { s.setPhase i (.settles c threw) with mtx := none }
  | .settles c true => some ((s.ends i c.type .threw).setFlag c .fresh)
  | .settles c false => some ((s.setPhase i (.reads c)).setFlag c .done)
  | .reads c => some (s.search i c)
  | .searches c => some (s.ends i c.type (s.atType c.type))
  | .idle | .constructs _ => none

/-- `reset`, with the new object. -/
def reset (s : State) (i : ℕ) (c : Call) : State :=
  { s.setPhase i (.unlocks c false) with
    handletons := Function.update s.handletons c.type (some (some s.made.length))
    made := s.made ++ [c.type] }

/-- The exception leaves the lambda. -/
def unwind (s : State) (i : ℕ) (c : Call) : State :=
  { s.setPhase i (.unlocks c true) with thrown := s.thrown ++ [c.type] }

end State

def react (s : State) : Event → Option State
  | .call i c =>
    match s.threads[i]? with
    | some .idle => some (s.setPhase i (.enters c))
    | _ => none
  | .next i => s.threads[i]?.bind (s.advance i)
  | .construct i throws =>
    match s.threads[i]? with
    | some (.constructs c) => some (if throws then s.unwind i c else s.reset i c)
    | _ => none

def step (s : State) (e : Event) : Option State := if s.raced then none else react s e

/-! ### What a step can do -/

inductive Step (s : State) (i : ℕ) : Phase → State → Prop where
  | call (c : Call) : Step s i .idle (s.setPhase i (.enters c))
  | start (c : Call) (hfresh : s.flags c = .fresh) :
    Step s i (.enters c) ((s.setPhase i (.locks c)).setFlag c (.running i))
  | follow (c : Call) (hdone : s.flags c = .done) : Step s i (.enters c) (s.setPhase i (.reads c))
  | lock (c : Call) (hfree : s.mtx = none) :
    Step s i (.locks c) { s.setPhase i (.looks c) with mtx := some i }
  | found (c : Call) (hentry : (s.handletons c.type).isSome) :
    Step s i (.looks c) (s.setPhase i (.unlocks c false))
  | missed (c : Call) (hnone : s.handletons c.type = none) :
    Step s i (.looks c) (s.setPhase i (.inserts c))
  | rehash (c : Call) : Step s i (.inserts c) (s.rehash i c)
  | insert (c : Call) : Step s i (.rehashes c) (s.insert i c)
  | reset (c : Call) : Step s i (.constructs c) (s.reset i c)
  | unwind (c : Call) : Step s i (.constructs c) (s.unwind i c)
  | unlock (c : Call) (threw : Bool) :
    Step s i (.unlocks c threw) { s.setPhase i (.settles c threw) with mtx := none }
  | giveUp (c : Call) : Step s i (.settles c true) ((s.ends i c.type .threw).setFlag c .fresh)
  | settle (c : Call) :
    Step s i (.settles c false) ((s.setPhase i (.reads c)).setFlag c .done)
  | search (c : Call) : Step s i (.reads c) (s.search i c)
  | read (c : Call) : Step s i (.searches c) (s.ends i c.type (s.atType c.type))

theorem advance_cases {s s' : State} {i : ℕ} {p : Phase} (h : s.advance i p = some s') :
    Step s i p s' := by
  cases p with
  | enters c =>
    simp only [State.advance, State.callOnce] at h
    split at h
    · next hfresh => exact Option.some.inj h ▸ .start c hfresh
    · cases h
    · next hdone => exact Option.some.inj h ▸ .follow c hdone
  | locks c =>
    obtain ⟨hfree, rfl⟩ := Option.ite_some_none_eq_some.mp h
    exact .lock c hfree
  | looks c =>
    obtain rfl := Option.some.inj h
    by_cases hentry : (s.handletons c.type).isSome
    · rw [if_pos hentry]
      exact .found c hentry
    · rw [if_neg hentry]
      exact .missed c (by simpa using hentry)
  | inserts c => exact Option.some.inj h ▸ .rehash c
  | rehashes c => exact Option.some.inj h ▸ .insert c
  | unlocks c threw => exact Option.some.inj h ▸ .unlock c threw
  | settles c threw =>
    cases threw with
    | true => exact Option.some.inj h ▸ .giveUp c
    | false => exact Option.some.inj h ▸ .settle c
  | reads c => exact Option.some.inj h ▸ .search c
  | searches c => exact Option.some.inj h ▸ .read c
  | idle | constructs _ => cases h

theorem react_cases {s s' : State} {e : Event} (h : react s e = some s') :
    ∃ i p, s.threads[i]? = some p ∧ (p = .idle ↔ e.isCall) ∧ Step s i p s' := by
  cases e with
  | call i c =>
    simp only [react] at h
    split at h
    · next hi => exact ⟨i, _, hi, by simp [Event.isCall], Option.some.inj h ▸ .call c⟩
    · cases h
  | next i =>
    obtain ⟨p, hp, h⟩ := Option.bind_eq_some_iff.mp h
    refine ⟨i, p, hp, ?_, advance_cases h⟩
    cases p <;> simp_all [Event.isCall, State.advance]
  | construct i throws =>
    simp only [react] at h
    split at h
    · next c hi =>
      refine ⟨i, _, hi, by simp [Event.isCall], Option.some.inj h ▸ ?_⟩
      cases throws with
      | true => exact .unwind c
      | false => exact .reset c
    · cases h

theorem step_cases {s s' : State} {e : Event} (h : step s e = some s') :
    s.raced = false ∧
      ∃ i p, s.threads[i]? = some p ∧ (p = .idle ↔ e.isCall) ∧ Step s i p s' := by
  obtain ⟨hraced, h⟩ := Option.ite_none_left_eq_some.mp h
  exact ⟨Bool.not_eq_true _ ▸ hraced, react_cases h⟩

/-! ### The flags and the mutex -/

/-- The thread that runs the lambda. -/
def Flag.runner : Flag → Option ℕ
  | running i => some i
  | _ => none

/-- The lambda of `c` is running. -/
def Phase.insideOf (c : Call) (p : Phase) : Bool := p.inside == some c

/-- A flag is taken by the thread in its lambda, and the mutex by the thread behind the lock. -/
structure Guarded (s : State) : Prop where
  flag : ∀ c, Owned (Phase.insideOf c) s.threads (s.flags c).runner
  mutex : Owned Phase.holds s.threads s.mtx

section Guarded
variable {s s' : State} {i : ℕ} {p p' : Phase} {c c' : Call}

theorem init_guarded (n : ℕ) : Guarded (State.init n) := by
  have hnone : ∀ {has : Phase → Bool}, has .idle = false →
      Owned has (List.replicate n Phase.idle) none := by
    intro has hidle i
    refine iff_of_false (by simp) ?_
    rintro ⟨p, hp, hhas⟩
    obtain ⟨-, rfl⟩ := List.mem_replicate.mp (List.mem_of_getElem? hp)
    rw [hidle] at hhas
    cases hhas
  exact ⟨fun c => hnone rfl, hnone rfl⟩

/-- The thread stays in the same lambda, or outside of all. -/
theorem Guarded.flag_keep (h : Guarded s) (hp : s.threads[i]? = some p)
    (hsame : p'.inside = p.inside) (c : Call) :
    Owned (Phase.insideOf c) (s.threads.set i p') (s.flags c).runner :=
  (h.flag c).keep hp (by rw [Phase.insideOf, Phase.insideOf, hsame])

/-- A flag is taken or given up, and the thread is in no other lambda. -/
theorem Guarded.flag_set (h : Guarded s) (hp : s.threads[i]? = some p) {f : Flag}
    (hc : Owned (Phase.insideOf c) (s.threads.set i p') f.runner)
    (hother : ∀ c', c' ≠ c → p'.insideOf c' = p.insideOf c') (c' : Call) :
    Owned (Phase.insideOf c') (s.threads.set i p') (Function.update s.flags c f c').runner := by
  by_cases hc' : c' = c
  · subst hc'
    rwa [Function.update_self]
  · rw [Function.update_of_ne hc']
    exact (h.flag c').keep hp (hother c' hc')

theorem step_guarded (hst : Step s i p s') (hp : s.threads[i]? = some p) (h : Guarded s) :
    Guarded s' := by
  have hother : ∀ {c c' : Call}, c' ≠ c → (some c == some c') = false := by
    intro c c' hne
    simpa using Ne.symm hne
  cases hst with
  | start c hfresh =>
    have hfree : (s.flags c).runner = none := by
      rw [hfresh]
      rfl
    have htake : Owned (Phase.insideOf c) (s.threads.set i (.locks c)) (Flag.running i).runner :=
      (h.flag c).take hp hfree (by simp [Phase.insideOf, Phase.inside])
    exact ⟨h.flag_set hp htake fun c' hne => hother hne, h.mutex.keep hp rfl⟩
  | giveUp c =>
    have hgive : Owned (Phase.insideOf c) (s.threads.set i .idle) Flag.fresh.runner :=
      (h.flag c).give hp (by simp [Phase.insideOf, Phase.inside]) rfl
    exact ⟨h.flag_set hp hgive fun c' hne => (hother hne).symm, h.mutex.keep hp rfl⟩
  | settle c =>
    have hgive : Owned (Phase.insideOf c) (s.threads.set i (.reads c)) Flag.done.runner :=
      (h.flag c).give hp (by simp [Phase.insideOf, Phase.inside]) rfl
    exact ⟨h.flag_set hp hgive fun c' hne => (hother hne).symm, h.mutex.keep hp rfl⟩
  | lock c hfree => exact ⟨h.flag_keep hp rfl, h.mutex.take hp hfree rfl⟩
  | unlock c threw => exact ⟨h.flag_keep hp rfl, h.mutex.give hp rfl rfl⟩
  | _ => exact ⟨h.flag_keep hp rfl, h.mutex.keep hp rfl⟩

end Guarded

/-! ### The map -/

namespace State

/-- The threads in the constructor of a type. -/
def making (s : State) (type : ℕ) : ℕ := s.threads.countP fun p => p.making == some type

/-- The threads on which an exception of a type's constructor is on its way. -/
def throwing (s : State) (type : ℕ) : ℕ := s.threads.countP fun p => p.throwing == some type

/-- The constructor of the type has run. -/
def Settled (s : State) (type : ℕ) : Prop := type ∈ s.made ∨ type ∈ s.thrown

/-- An answer that the constructors agree with. -/
def Right (s : State) (type : ℕ) : Answer → Prop
  | .pointer (some k) => s.made[k]? = some type
  | .pointer none | .threw => type ∈ s.thrown
  | .outOfRange => False

end State

/-- The constructor of a type has run, or runs, at most once, and has then given the map its
entry. -/
structure Sound (s : State) : Prop where
  once : ∀ t, s.made.count t + s.thrown.count t + s.making t = one (s.handletons t).isSome
  absent : ∀ (i : ℕ) (p : Phase) (c : Call), s.threads[i]? = some p → p.inserting = some c →
    s.handletons c.type = none
  object : ∀ t k, s.handletons t = some (some k) → s.made[k]? = some t
  null : ∀ t, s.handletons t = some none → t ∉ s.made
  past : ∀ (i : ℕ) (p : Phase) (t : ℕ), s.threads[i]? = some p → p.past = some t → s.Settled t
  done : ∀ c, s.flags c = .done → s.Settled c.type
  thrown : ∀ t, s.answers.count (t, .threw) + s.throwing t = s.thrown.count t
  right : ∀ t a, (t, a) ∈ s.answers → s.Right t a

section Sound
variable {s s' : State} {i t : ℕ} {p p' : Phase} {c : Call}

theorem init_sound (n : ℕ) : Sound (State.init n) := by
  have hidle : ∀ {i : ℕ} {p : Phase}, (List.replicate n Phase.idle)[i]? = some p → p = .idle :=
    fun hp => (List.mem_replicate.mp (List.mem_of_getElem? hp)).2
  constructor
  case once =>
    exact fun t => by simp [State.init, State.making, Phase.making, List.countP_replicate]
  case absent =>
    intro i p c hp hc
    rw [hidle hp] at hc
    cases hc
  case object => exact fun t k hk => by cases hk
  case null => exact fun t ht => by cases ht
  case past =>
    intro i p t hp ht
    rw [hidle hp] at ht
    cases ht
  case done => exact fun c hc => by cases hc
  case thrown =>
    exact fun t => by simp [State.init, State.throwing, Phase.throwing, List.countP_replicate]
  case right => exact fun t a ha => by cases ha

theorem getElem?_set_cases {j : ℕ} {q : Phase} (hq : (s.threads.set i p')[j]? = some q) :
    j = i ∧ q = p' ∨ j ≠ i ∧ s.threads[j]? = some q := by
  rw [List.getElem?_set] at hq
  split_ifs at hq with hj hi
  · exact .inl ⟨hj.symm, (Option.some.inj hq).symm⟩
  · exact .inr ⟨Ne.symm hj, hq⟩

theorem State.Settled.append {m l : List ℕ} (h : s.Settled t) (hm : s'.made = s.made ++ m)
    (hl : s'.thrown = s.thrown ++ l) : s'.Settled t := by
  rw [Settled, hm, hl]
  exact h.imp (List.mem_append_left m) (List.mem_append_left l)

theorem State.Right.append {m l : List ℕ} {a : Answer} (h : s.Right t a)
    (hm : s'.made = s.made ++ m) (hl : s'.thrown = s.thrown ++ l) : s'.Right t a := by
  rcases a with (_ | k) | _ | _
  · rw [Right, hl]
    exact List.mem_append_left l h
  · have hk : k < s.made.length := (List.getElem?_eq_some_iff.mp h).1
    rw [Right, hm, List.getElem?_append_left hk]
    exact h
  · rw [Right, hl]
    exact List.mem_append_left l h
  · exact h

theorem State.making_set (p' : Phase) (hp : s.threads[i]? = some p)
    (hs : s'.threads = s.threads.set i p') (t : ℕ) :
    s'.making t + one (p.making == some t) = s.making t + one (p'.making == some t) := by
  rw [making, hs]
  exact countP_set_add p' hp

theorem State.throwing_set (p' : Phase) (hp : s.threads[i]? = some p)
    (hs : s'.threads = s.threads.set i p') (t : ℕ) :
    s'.throwing t + one (p.throwing == some t) = s.throwing t + one (p'.throwing == some t) := by
  rw [throwing, hs]
  exact countP_set_add p' hp

/-- A thread goes on, and the map and the constructors are as before. -/
theorem Sound.move (h : Sound s) (hp : s.threads[i]? = some p)
    (hthreads : s'.threads = s.threads.set i p') (hmap : s'.handletons = s.handletons)
    (hmade : s'.made = s.made) (hthrown : s'.thrown = s.thrown) (hmaking : p'.making = p.making)
    (habsent : ∀ c, p'.inserting = some c → s.handletons c.type = none)
    (hpast : ∀ t, p'.past = some t → s.Settled t)
    (hdone : ∀ c, s'.flags c = .done → s.Settled c.type)
    (hthrow : ∀ t, s'.answers.count (t, .threw) + one (p'.throwing == some t) =
      s.answers.count (t, .threw) + one (p.throwing == some t))
    (hright : ∀ t a, (t, a) ∈ s'.answers → s.Right t a) : Sound s' := by
  have hsettled : ∀ {t}, s.Settled t → s'.Settled t := fun hs =>
    hs.append (by rw [hmade, List.append_nil]) (by rw [hthrown, List.append_nil])
  constructor
  case once =>
    intro t
    have hcount := State.making_set p' hp hthreads t
    have honce := h.once t
    rw [hmaking] at hcount
    rw [hmade, hthrown, hmap]
    omega
  case absent =>
    intro j q c hq hc
    rw [hthreads] at hq
    rw [hmap]
    rcases getElem?_set_cases hq with ⟨-, rfl⟩ | ⟨-, hq⟩
    · exact habsent c hc
    · exact h.absent j q c hq hc
  case object =>
    intro t k hk
    rw [hmap] at hk
    rw [hmade]
    exact h.object t k hk
  case null =>
    intro t ht
    rw [hmap] at ht
    rw [hmade]
    exact h.null t ht
  case past =>
    intro j q t hq ht
    rw [hthreads] at hq
    rcases getElem?_set_cases hq with ⟨-, rfl⟩ | ⟨-, hq⟩
    · exact hsettled (hpast t ht)
    · exact hsettled (h.past j q t hq ht)
  case done => exact fun c hc => hsettled (hdone c hc)
  case thrown =>
    intro t
    have hcount := State.throwing_set p' hp hthreads t
    have hbefore := h.thrown t
    have hthrow := hthrow t
    rw [hthrown]
    omega
  case right =>
    exact fun t a ha =>
      (hright t a ha).append (by rw [hmade, List.append_nil]) (by rw [hthrown, List.append_nil])

/-- Beside the thread with the mutex no constructor runs. -/
theorem Guarded.making_eq_zero (hg : Guarded s) (hp : s.threads[i]? = some p)
    (hhold : p.holds = true) (hmaking : p.making = none) (t : ℕ) : s.making t = 0 := by
  refine List.countP_eq_zero.mpr fun q hq hm => ?_
  obtain ⟨j, hj⟩ := List.getElem?_of_mem hq
  obtain ⟨c, rfl⟩ : ∃ c, q = .constructs c := by
    cases q <;> simp_all [Phase.making]
  obtain rfl := hg.mutex.unique hp hj hhold rfl
  obtain rfl := Option.some.inj (hj.symm.trans hp)
  cases hmaking

/-- An entry that is there while no constructor runs is settled. -/
theorem Sound.settled_of_entry (h : Sound s) (hentry : (s.handletons t).isSome)
    (hmaking : s.making t = 0) : s.Settled t := by
  have honce := h.once t
  rw [hentry, one_true, hmaking, Nat.add_zero] at honce
  by_cases hmade : t ∈ s.made
  · exact .inl hmade
  · rw [List.count_eq_zero_of_not_mem hmade, Nat.zero_add] at honce
    exact .inr (List.count_pos_iff.mp (by omega))

/-- What `at` finds for a settled type. -/
theorem Sound.right_atType (h : Sound s) (hsettled : s.Settled t) : s.Right t (s.atType t) := by
  have honce := h.once t
  have hpos : 0 < s.made.count t + s.thrown.count t := by
    rcases hsettled with hmem | hmem
    · exact Nat.add_pos_left (List.count_pos_iff.mpr hmem) _
    · exact Nat.add_pos_right _ (List.count_pos_iff.mpr hmem)
  rw [State.atType]
  cases hentry : s.handletons t with
  | none =>
    rw [hentry, Option.isSome_none, one_false] at honce
    omega
  | some o =>
    cases o with
    | none => exact hsettled.resolve_left (h.null t hentry)
    | some k => exact h.object t k hentry

theorem Sound.entry_of_settled (h : Sound s) (hsettled : s.Settled t) :
    (s.handletons t).isSome := by
  have honce := h.once t
  have hpos : 0 < s.made.count t + s.thrown.count t := by
    rcases hsettled with hmem | hmem
    · exact Nat.add_pos_left (List.count_pos_iff.mpr hmem) _
    · exact Nat.add_pos_right _ (List.count_pos_iff.mpr hmem)
  cases hentry : (s.handletons t).isSome with
  | true => rfl
  | false =>
    rw [hentry, one_false] at honce
    omega

theorem count_append_ne {l : List (ℕ × Answer)} {a : Answer} (ha : a ≠ .threw) (t' : ℕ) :
    (l ++ [(t', a)]).count (t, .threw) = l.count (t, .threw) := by
  rw [List.count_append, List.count_singleton, if_neg (by simp [ha]), Nat.add_zero]

theorem Sound.right_ends (h : Sound s) {t' : ℕ} {b : Answer} (hb : s.Right t' b) {a : Answer}
    (ha : (t, a) ∈ s.answers ++ [(t', b)]) : s.Right t a := by
  rcases List.mem_append.mp ha with ha | ha
  · exact h.right t a ha
  · obtain ⟨rfl, rfl⟩ := Prod.mk.inj (List.mem_singleton.mp ha)
    exact hb

theorem count_concat (l : List ℕ) (t' : ℕ) :
    (l ++ [t']).count t = l.count t + one (t' == t) := by
  rw [List.count_append, List.count_singleton, one]

/-- While its constructor runs a type has an entry and is not settled. -/
theorem Sound.constructing (h : Sound s) (hp : s.threads[i]? = some (.constructs c)) :
    (s.handletons c.type).isSome = true ∧ s.made.count c.type = 0 ∧ s.thrown.count c.type = 0 := by
  have hmaking : 0 < s.making c.type :=
    List.countP_pos_iff.mpr ⟨_, List.mem_of_getElem? hp, by simp [Phase.making]⟩
  have honce := h.once c.type
  cases hentry : (s.handletons c.type).isSome with
  | false =>
    rw [hentry, one_false] at honce
    omega
  | true =>
    rw [hentry, one_true] at honce
    exact ⟨rfl, by omega, by omega⟩

/-- The thread with the mutex goes on to a phase without an insertion. -/
theorem Guarded.absent_set (hg : Guarded s) (hp : s.threads[i]? = some p) (hhold : p.holds = true)
    (hp' : p'.inserting = none) {j : ℕ} {q : Phase} {c : Call} {Q : Prop}
    (hq : (s.threads.set i p')[j]? = some q) (hc : q.inserting = some c) : Q := by
  rcases getElem?_set_cases hq with ⟨-, rfl⟩ | ⟨hne, hq⟩
  · rw [hp'] at hc
    cases hc
  · have hholds : q.holds = true := by
      cases q <;> simp_all [Phase.inserting, Phase.holds]
    exact absurd (hg.mutex.unique hq hp hholds hhold) hne

theorem Sound.insert (h : Sound s) (hg : Guarded s) (hp : s.threads[i]? = some (.rehashes c)) :
    Sound (s.insert i c) := by
  have hnone := h.absent i _ c hp rfl
  have hzero := h.once c.type
  rw [hnone, Option.isSome_none, one_false] at hzero
  constructor
  case once =>
    intro t
    have hcount : (s.insert i c).making t + one false = s.making t + one (some c.type == some t) :=
      State.making_set (.constructs c) hp rfl t
    have honce := h.once t
    change s.made.count t + s.thrown.count t + (s.insert i c).making t =
      one (Function.update s.handletons c.type (some none) t).isSome
    by_cases ht : t = c.type
    · subst ht
      rw [Function.update_self, Option.isSome_some, one_true]
      simp only [one_false, beq_self_eq_true, one_true] at hcount
      omega
    · rw [Function.update_of_ne ht]
      have hne : (some c.type == some t) = false := by simpa using Ne.symm ht
      rw [hne] at hcount
      omega
  case absent => exact fun j q c' hq hc => hg.absent_set hp rfl rfl hq hc
  case object =>
    intro t k hk
    rcases update_some_eq_some.mp hk with ⟨-, hk⟩ | ⟨-, hk⟩
    · cases hk
    · exact h.object t k hk
  case null =>
    intro t ht
    rcases update_some_eq_some.mp ht with ⟨rfl, -⟩ | ⟨-, ht⟩
    · exact List.count_eq_zero.mp (by change s.made.count c.type = 0; omega)
    · exact h.null t ht
  case past =>
    intro j q t hq ht
    rcases getElem?_set_cases hq with ⟨-, rfl⟩ | ⟨-, hq⟩
    · cases ht
    · exact h.past j q t hq ht
  case done => exact h.done
  case thrown =>
    intro t
    have hcount : (s.insert i c).throwing t + one false = s.throwing t + one false :=
      State.throwing_set (.constructs c) hp rfl t
    exact Nat.add_right_cancel hcount ▸ h.thrown t
  case right => exact h.right

theorem Sound.reset (h : Sound s) (hg : Guarded s) (hp : s.threads[i]? = some (.constructs c)) :
    Sound (s.reset i c) := by
  obtain ⟨hentry, -, -⟩ := h.constructing hp
  have hsettled : ∀ {t}, s.Settled t → (s.reset i c).Settled t := fun hs =>
    hs.append rfl (List.append_nil _).symm
  constructor
  case once =>
    intro t
    have hcount : (s.reset i c).making t + one (some c.type == some t) = s.making t + one false :=
      State.making_set (.unlocks c false) hp rfl t
    have honce := h.once t
    change (s.made ++ [c.type]).count t + s.thrown.count t + (s.reset i c).making t =
      one (Function.update s.handletons c.type (some (some s.made.length)) t).isSome
    rw [count_concat]
    by_cases ht : t = c.type
    · subst ht
      rw [hentry] at honce
      rw [Function.update_self, Option.isSome_some]
      simp only [beq_self_eq_true, one_true, one_false] at hcount honce ⊢
      omega
    · rw [Function.update_of_ne ht]
      have hne : (c.type == t) = false := by simpa using Ne.symm ht
      have hne' : (some c.type == some t) = false := by simpa using Ne.symm ht
      rw [hne'] at hcount
      rw [hne, one_false]
      omega
  case absent => exact fun j q c' hq hc => hg.absent_set hp rfl rfl hq hc
  case object =>
    intro t k hk
    change (s.made ++ [c.type])[k]? = some t
    rcases update_some_eq_some.mp hk with ⟨rfl, hlast⟩ | ⟨-, hk⟩
    · obtain rfl := Option.some.inj hlast
      simp
    · have hmade := h.object t k hk
      rw [List.getElem?_append_left (List.getElem?_eq_some_iff.mp hmade).1]
      exact hmade
  case null =>
    intro t ht
    rcases update_some_eq_some.mp ht with ⟨-, ht⟩ | ⟨hne, ht⟩
    · cases ht
    · exact fun hmem => (List.mem_append.mp hmem).elim (h.null t ht) (by simpa using hne)
  case past =>
    intro j q t hq ht
    rcases getElem?_set_cases hq with ⟨-, rfl⟩ | ⟨-, hq⟩
    · obtain rfl := Option.some.inj ht
      exact .inl (List.mem_append_right _ (List.mem_singleton_self _))
    · exact hsettled (h.past j q t hq ht)
  case done => exact fun c' hc' => hsettled (h.done c' hc')
  case thrown =>
    intro t
    have hcount : (s.reset i c).throwing t + one false = s.throwing t + one false :=
      State.throwing_set (.unlocks c false) hp rfl t
    exact Nat.add_right_cancel hcount ▸ h.thrown t
  case right => exact fun t a ha => (h.right t a ha).append rfl (List.append_nil _).symm

theorem Sound.unwind (h : Sound s) (hg : Guarded s) (hp : s.threads[i]? = some (.constructs c)) :
    Sound (s.unwind i c) := by
  have hsettled : ∀ {t}, s.Settled t → (s.unwind i c).Settled t := fun hs =>
    hs.append (List.append_nil _).symm rfl
  have hsame : ∀ t, (some c.type == some t) = (c.type == t) := fun t => rfl
  constructor
  case once =>
    intro t
    have hcount : (s.unwind i c).making t + one (some c.type == some t) = s.making t + one false :=
      State.making_set (.unlocks c true) hp rfl t
    have honce := h.once t
    change s.made.count t + (s.thrown ++ [c.type]).count t + (s.unwind i c).making t =
      one (s.handletons t).isSome
    rw [count_concat, ← hsame]
    rw [one_false] at hcount
    omega
  case absent => exact fun j q c' hq hc => hg.absent_set hp rfl rfl hq hc
  case object => exact h.object
  case null => exact h.null
  case past =>
    intro j q t hq ht
    rcases getElem?_set_cases hq with ⟨-, rfl⟩ | ⟨-, hq⟩
    · obtain rfl := Option.some.inj ht
      exact .inr (List.mem_append_right _ (List.mem_singleton_self _))
    · exact hsettled (h.past j q t hq ht)
  case done => exact fun c' hc' => hsettled (h.done c' hc')
  case thrown =>
    intro t
    have hcount : (s.unwind i c).throwing t + one false =
        s.throwing t + one (some c.type == some t) := State.throwing_set (.unlocks c true) hp rfl t
    have hbefore := h.thrown t
    change s.answers.count (t, .threw) + (s.unwind i c).throwing t = (s.thrown ++ [c.type]).count t
    rw [count_concat, ← hsame]
    rw [one_false] at hcount
    omega
  case right => exact fun t a ha => (h.right t a ha).append (List.append_nil _).symm rfl

theorem Sound.thrown_of_throwing (h : Sound s) (hp : s.threads[i]? = some p)
    (ht : p.throwing = some t) : t ∈ s.thrown := by
  have hpos : 0 < s.throwing t :=
    List.countP_pos_iff.mpr ⟨p, List.mem_of_getElem? hp, by simp [ht]⟩
  have hthrown := h.thrown t
  exact List.count_pos_iff.mp (by omega)

theorem step_sound (hst : Step s i p s') (hp : s.threads[i]? = some p) (hg : Guarded s)
    (h : Sound s) : Sound s' := by
  have hdone : ∀ {c : Call} {f : Flag}, (f = .done → s.Settled c.type) →
      ∀ c', Function.update s.flags c f c' = .done → s.Settled c'.type := by
    intro c f hf c' hc'
    by_cases hne : c' = c
    · subst hne
      exact hf (by simpa using hc')
    · exact h.done c' (by simpa [hne] using hc')
  cases hst with
  | call c =>
    exact h.move hp rfl rfl rfl rfl rfl (by simp [Phase.inserting])
      (by simp [Phase.past]) h.done (fun _ => rfl)
      h.right
  | start c hfresh =>
    exact h.move hp rfl rfl rfl rfl rfl (by simp [Phase.inserting])
      (by simp [Phase.past]) (hdone (by simp))
      (fun _ => rfl) h.right
  | follow c hflag =>
    refine h.move hp rfl rfl rfl rfl rfl (by simp [Phase.inserting])
      ?_ h.done (fun _ => rfl) h.right
    exact fun t ht => Option.some.inj ht ▸ h.done c hflag
  | lock c hfree =>
    exact h.move hp rfl rfl rfl rfl rfl (by simp [Phase.inserting])
      (by simp [Phase.past]) h.done (fun _ => rfl)
      h.right
  | found c hentry =>
    have hsettled := h.settled_of_entry hentry (hg.making_eq_zero hp rfl rfl c.type)
    refine h.move hp rfl rfl rfl rfl rfl (by simp [Phase.inserting])
      ?_ h.done (fun _ => rfl) h.right
    exact fun t ht => Option.some.inj ht ▸ hsettled
  | missed c hnone =>
    refine h.move hp rfl rfl rfl rfl rfl ?_ (by simp [Phase.past]) h.done (fun _ => rfl) h.right
    rintro c' hc'
    obtain rfl := Option.some.inj hc'
    exact hnone
  | rehash c =>
    exact h.move hp rfl rfl rfl rfl rfl (fun c' hc' => h.absent i _ c' hp hc')
      (by simp [Phase.past]) h.done (fun _ => rfl) h.right
  | insert c => exact h.insert hg hp
  | reset c => exact h.reset hg hp
  | unwind c => exact h.unwind hg hp
  | unlock c threw =>
    refine h.move hp rfl rfl rfl rfl rfl (by simp [Phase.inserting])
      (fun t ht => h.past i _ t hp ht) h.done ?_
      h.right
    cases threw <;> exact fun _ => rfl
  | giveUp c =>
    have hthrown : s.Right c.type .threw := h.thrown_of_throwing hp rfl
    refine h.move hp rfl rfl rfl rfl rfl (by simp [Phase.inserting])
      (by simp [Phase.past]) (hdone (by simp)) ?_
      fun t a ha => h.right_ends hthrown ha
    intro t
    have hcount : (s.answers ++ [(c.type, Answer.threw)]).count (t, .threw) =
        s.answers.count (t, .threw) + one (some c.type == some t) := by
      simp [List.count_append, List.count_singleton, one]
    exact hcount
  | settle c =>
    have hsettled := h.past i _ c.type hp rfl
    refine h.move hp rfl rfl rfl rfl rfl (by simp [Phase.inserting])
      ?_ (hdone fun _ => hsettled) (fun _ => rfl)
      h.right
    exact fun t ht => Option.some.inj ht ▸ hsettled
  | search c =>
    exact h.move hp rfl rfl rfl rfl rfl (by simp [Phase.inserting])
      (fun t ht => h.past i _ t hp ht) h.done (fun _ => rfl) h.right
  | read c =>
    have hright := h.right_atType (h.past i _ c.type hp rfl)
    have hne : s.atType c.type ≠ .threw := by
      rw [State.atType]
      split <;> simp
    refine h.move hp rfl rfl rfl rfl rfl (by simp [Phase.inserting])
      (by simp [Phase.past]) h.done ?_
      fun t a ha => h.right_ends hright ha
    exact fun t => congrArg (· + 0) (count_append_ne hne c.type)

end Sound

section Runs
variable {n i : ℕ} {es : List Event} {s s' : State} {p : Phase}

theorem sound_of_run (hrun : run step (fun _ _ => True) es (State.init n) = some s) :
    Guarded s ∧ Sound s := by
  refine run_invariant (P := fun s => Guarded s ∧ Sound s) (fun s e s' _ hst h => ?_) hrun
    ⟨init_guarded n, init_sound n⟩
  obtain ⟨-, i, p, hp, -, hstep⟩ := step_cases hst
  exact ⟨step_guarded hstep hp h.1, step_sound hstep hp h.1 h.2⟩

theorem Sound.count_le_one (h : Sound s) (t : ℕ) : s.made.count t + s.thrown.count t ≤ 1 := by
  have honce := h.once t
  have hone : one (s.handletons t).isSome ≤ 1 := by
    rw [one]
    split_ifs <;> decide
  omega

/-- A pointer is null exactly if the constructor has thrown. -/
theorem Sound.null_iff (h : Sound s) {t : ℕ} {o : Option ℕ} (ho : (t, .pointer o) ∈ s.answers) :
    o = none ↔ t ∈ s.thrown := by
  have hright := h.right t _ ho
  cases o with
  | none => exact iff_of_true rfl hright
  | some k =>
    refine iff_of_false (by simp) fun hthrown => ?_
    have hmade : 0 < s.made.count t := List.count_pos_iff.mpr (List.mem_of_getElem? hright)
    have hpos : 0 < s.thrown.count t := List.count_pos_iff.mpr hthrown
    have honce := h.count_le_one t
    omega

theorem Sound.pointer_unique (h : Sound s) {t : ℕ} {o o' : Option ℕ}
    (ho : (t, .pointer o) ∈ s.answers) (ho' : (t, .pointer o') ∈ s.answers) : o = o' := by
  have hnull := (h.null_iff ho).trans (h.null_iff ho').symm
  have hnodup : s.made.Nodup := List.nodup_iff_count_le_one.mpr fun a =>
    Nat.le_trans (Nat.le_add_right _ _) (h.count_le_one a)
  cases o with
  | none => exact (hnull.mp rfl).symm
  | some k =>
    cases o' with
    | none => exact hnull.mpr rfl
    | some k' =>
      have hk : s.made[k]? = some t := h.right t _ ho
      have hk' : s.made[k']? = some t := h.right t _ ho'
      have hlt := (List.getElem?_eq_some_iff.mp hk).1
      rw [(List.getElem?_inj hlt hnodup).mp (hk.trans hk'.symm)]

/-- Nobody writes the entry of a settled type. -/
theorem Sound.not_writes (h : Sound s) {t : ℕ} (hsettled : s.Settled t) {q : Phase}
    (hq : q ∈ s.threads) : q.writes ≠ some t := by
  intro hwrites
  obtain ⟨j, hj⟩ := List.getElem?_of_mem hq
  have hpos : 0 < s.made.count t + s.thrown.count t := by
    rcases hsettled with hmem | hmem
    · exact Nat.add_pos_left (List.count_pos_iff.mpr hmem) _
    · exact Nat.add_pos_right _ (List.count_pos_iff.mpr hmem)
  cases q with
  | rehashes c =>
    obtain rfl := Option.some.inj hwrites
    have honce := h.once c.type
    rw [h.absent j _ c hj rfl, Option.isSome_none, one_false] at honce
    omega
  | constructs c =>
    obtain rfl := Option.some.inj hwrites
    have hcounts := h.constructing hj
    omega
  | _ => cases hwrites

/-! ### The race for the map -/

/-- One thread changes the map while another one is in `at`. -/
def overlap (threads : List Phase) : Bool :=
  threads.any Phase.looksUp && threads.any Phase.changes

section Race
variable {f : Phase → Bool} {p' : Phase} {threads : List Phase}

theorem any_set_true (hp : threads[i]? = some p) (hf : f p' = true) :
    (threads.set i p').any f = true := by
  have hi := (List.getElem?_eq_some_iff.mp hp).1
  exact List.any_eq_true.mpr ⟨p', List.mem_set hi p', hf⟩

theorem any_of_any_set (hp : threads[i]? = some p) (hf : f p' = true → f p = true)
    (hany : (threads.set i p').any f = true) : threads.any f = true := by
  obtain ⟨q, hq, hfq⟩ := List.any_eq_true.mp hany
  rcases List.mem_or_eq_of_mem_set hq with hq | rfl
  · exact List.any_eq_true.mpr ⟨q, hq, hfq⟩
  · exact List.any_eq_true.mpr ⟨p, List.mem_of_getElem? hp, hf hfq⟩

theorem any_set_eq (hp : threads[i]? = some p) (hf : f p' = f p) :
    (threads.set i p').any f = threads.any f := by
  rw [Bool.eq_iff_iff]
  refine ⟨any_of_any_set hp (hf ▸ id), fun hany => ?_⟩
  obtain ⟨q, hq, hfq⟩ := List.any_eq_true.mp hany
  obtain ⟨j, hj⟩ := List.getElem?_of_mem hq
  by_cases hji : j = i
  · subst hji
    obtain rfl := Option.some.inj (hj.symm.trans hp)
    exact any_set_true hp (hf.trans hfq)
  · refine List.any_eq_true.mpr ⟨q, List.mem_of_getElem? (i := j) ?_, hfq⟩
    rwa [List.getElem?_set_ne (Ne.symm hji)]

/-- A thread goes on that begins no access of the map. -/
theorem overlap_set (hp : threads[i]? = some p) (hlooks : p'.looksUp = true → p.looksUp = true)
    (hchanges : p'.changes = true → p.changes = true) (hnot : overlap threads = false) :
    overlap (threads.set i p') = false := by
  rw [← Bool.not_eq_true] at hnot ⊢
  refine fun hover => hnot ?_
  rw [overlap, Bool.and_eq_true] at hover ⊢
  exact ⟨any_of_any_set hp hlooks hover.1, any_of_any_set hp hchanges hover.2⟩

theorem step_raced (hst : Step s i p s') (hp : s.threads[i]? = some p) (hno : s.raced = false)
    (h : s.raced = overlap s.threads) : s'.raced = overlap s'.threads := by
  have hover : overlap s.threads = false := h ▸ hno
  cases hst with
  | rehash c =>
    change s.threads.any Phase.looksUp = overlap (s.threads.set i (.rehashes c))
    have hnew : (s.threads.set i (.rehashes c)).any Phase.changes = true := any_set_true hp rfl
    have hsame : (Phase.rehashes c).looksUp = (Phase.inserts c).looksUp := rfl
    rw [overlap, hnew, Bool.and_true]
    exact (any_set_eq hp hsame).symm
  | search c =>
    change s.threads.any Phase.changes = overlap (s.threads.set i (.searches c))
    have hnew : (s.threads.set i (.searches c)).any Phase.looksUp = true := any_set_true hp rfl
    have hsame : (Phase.searches c).changes = (Phase.reads c).changes := rfl
    rw [overlap, hnew, Bool.true_and]
    exact (any_set_eq hp hsame).symm
  | _ =>
    refine hno.trans (overlap_set hp ?_ ?_ hover).symm
    · simp [Phase.looksUp]
    · simp [Phase.changes]

theorem raced_of_run (hrun : run step (fun _ _ => True) es (State.init n) = some s) :
    s.raced = overlap s.threads := by
  refine run_invariant (P := fun s => s.raced = overlap s.threads)
    (fun s e s' _ hst h => ?_) hrun ?_
  · obtain ⟨hno, i, p, hp, -, hstep⟩ := step_cases hst
    exact step_raced hstep hp hno h
  · have hidle : (State.init n).threads.any Phase.looksUp = false := by
      simp [State.init, Phase.looksUp]
    rw [overlap, hidle]
    rfl

/-- Only types that are in the map are asked for. -/
def AsksKnown (s : State) : Event → Prop
  | .call _ c => (s.handletons c.type).isSome
  | _ => True

instance (s : State) (e : Event) : Decidable (AsksKnown s e) :=
  match e with
  | .call _ c => inferInstanceAs (Decidable ((s.handletons c.type).isSome = true))
  | .next _ | .construct _ _ => .isTrue trivial

/-- The calls in progress are for types that are in the map. -/
def Known (s : State) : Prop :=
  ∀ p ∈ s.threads, ∀ c, p.call = some c → (s.handletons c.type).isSome

theorem entry_kept (hst : Step s i p s') {t : ℕ} (ht : (s.handletons t).isSome) :
    (s'.handletons t).isSome := by
  cases hst with
  | insert c | reset c => exact isSome_update_some ht
  | _ => exact ht

/-- A thread stays in its call, or leaves it, or begins one. -/
theorem call_kept (hst : Step s i p s') : ∃ p', s'.threads = s.threads.set i p' ∧
    (p'.call = p.call ∨ p'.call = none ∨ p = .idle) := by
  cases hst with
  | call c => exact ⟨_, rfl, .inr (.inr rfl)⟩
  | giveUp c | read c => exact ⟨_, rfl, .inr (.inl rfl)⟩
  | _ => exact ⟨_, rfl, .inl rfl⟩

theorem Sound.not_changes (h : Sound s) (hknown : Known s) :
    s.threads.any Phase.changes = false := by
  rw [← Bool.not_eq_true]
  intro hany
  obtain ⟨q, hq, hchanges⟩ := List.any_eq_true.mp hany
  obtain ⟨j, hj⟩ := List.getElem?_of_mem hq
  cases q with
  | rehashes c =>
    have hentry := hknown _ hq c rfl
    rw [h.absent j _ c hj rfl] at hentry
    cases hentry
  | _ => cases hchanges

/-- Who asks for known types only does not change the map. -/
theorem step_known {e : Event} (hasks : AsksKnown s e) (hst : step s e = some s') (h : Sound s)
    (hknown : Known s) : Known s' ∧ s'.raced = false := by
  obtain ⟨hno, i, p, hp, hcall, hstep⟩ := step_cases hst
  have hcalls : ∀ p', s'.threads = s.threads.set i p' →
      (∀ c, p'.call = some c → (s.handletons c.type).isSome) → Known s' := by
    intro p' hthreads hp' q hq c hc
    rw [hthreads] at hq
    refine entry_kept hstep ?_
    rcases List.mem_or_eq_of_mem_set hq with hq | rfl
    · exact hknown q hq c hc
    · exact hp' c hc
  have hkept := hknown p (List.mem_of_getElem? hp)
  constructor
  · cases e with
    | call j c =>
      obtain ⟨-, hst⟩ := Option.ite_none_left_eq_some.mp hst
      simp only [react] at hst
      split at hst
      · next hj =>
        obtain rfl := Option.some.inj hst
        intro q hq c' hc'
        rcases List.mem_or_eq_of_mem_set hq with hq | rfl
        · exact hknown q hq c' hc'
        · obtain rfl := Option.some.inj hc'
          exact hasks
      · cases hst
    | next | construct =>
      obtain ⟨p', hthreads, hsame | hnone | rfl⟩ := call_kept hstep
      · exact hcalls p' hthreads fun c hc => hkept c (hsame ▸ hc)
      · exact hcalls p' hthreads fun c hc => by simp [hnone] at hc
      · exact absurd (hcall.mp rfl) (by simp [Event.isCall])
  · cases hstep with
    | search c => exact h.not_changes hknown
    | rehash c =>
      have hentry := hkept c rfl
      rw [h.absent i _ c hp rfl] at hentry
      cases hentry
    | _ => exact hno

theorem run_known (hrun : run step AsksKnown es s = some s') (h : Guarded s ∧ Sound s)
    (hknown : Known s) (hno : s.raced = false) : s'.raced = false := by
  refine (run_invariant (P := fun s => (Guarded s ∧ Sound s) ∧ Known s ∧ s.raced = false)
    (fun s e s' hasks hst hi => ?_) hrun ⟨h, hknown, hno⟩).2.2
  obtain ⟨-, i, p, hp, -, hstep⟩ := step_cases hst
  exact ⟨⟨step_guarded hstep hp hi.1.1, step_sound hstep hp hi.1.1 hi.1.2⟩,
    step_known hasks hst hi.1.2 hi.2.1⟩

end Race

/-- The constructor of a type runs at most once in the process, whichever images and threads
ask for the type. Every call that gets a pointer gets the same one; it is null exactly if
the constructor has thrown, and only one call gets that exception. `at` finds an entry at
every call, and one that nobody is writing. The run ends in a race exactly if a thread is in
`at` while another one makes the entry of a type that was not there, and no more once every
type that is asked for is in the map. -/
theorem handleton_once (hrun : run step (fun _ _ => True) es (State.init n) = some s) (t : ℕ) :
    s.made.count t + s.thrown.count t ≤ 1 ∧
      (∀ p p', (t, .pointer p) ∈ s.answers → (t, .pointer p') ∈ s.answers → p = p') ∧
      (∀ p, (t, .pointer p) ∈ s.answers → (p = none ↔ t ∈ s.thrown)) ∧
      (∀ k, (t, .pointer (some k)) ∈ s.answers → s.made[k]? = some t) ∧
      s.answers.count (t, .threw) ≤ s.thrown.count t ∧ (t, .outOfRange) ∉ s.answers ∧
      (∀ image, .searches ⟨image, t⟩ ∈ s.threads → ∀ q ∈ s.threads, q.writes ≠ some t) ∧
      (s.raced = true ↔ ∃ c c', .searches c ∈ s.threads ∧ .rehashes c' ∈ s.threads ∧
        (s.handletons c.type).isSome ∧ s.handletons c'.type = none) ∧
      (Known s → s.raced = false → ∀ es' s', run step AsksKnown es' s = some s' →
        s'.raced = false) := by
  obtain ⟨hg, h⟩ := sound_of_run hrun
  refine ⟨h.count_le_one t, fun p p' => h.pointer_unique, fun p => h.null_iff,
    fun k hk => h.right t _ hk, ?_, fun hout => h.right t _ hout, fun image hreads q hq => ?_, ?_,
    fun hknown hno es' s' hrun' => run_known hrun' ⟨hg, h⟩ hknown hno⟩
  · have hthrown := h.thrown t
    omega
  · obtain ⟨i, hi⟩ := List.getElem?_of_mem hreads
    exact h.not_writes (h.past i _ t hi rfl) hq
  · rw [raced_of_run hrun, overlap, Bool.and_eq_true, List.any_eq_true, List.any_eq_true]
    constructor
    · rintro ⟨⟨p, hp, hlooks⟩, q, hq, hchanges⟩
      cases p with
      | searches c =>
        cases q with
        | rehashes c' =>
          obtain ⟨i, hi⟩ := List.getElem?_of_mem hp
          obtain ⟨j, hj⟩ := List.getElem?_of_mem hq
          exact ⟨c, c', hp, hq, h.entry_of_settled (h.past i _ c.type hi rfl),
            h.absent j _ c' hj rfl⟩
        | _ => cases hchanges
      | _ => cases hlooks
    · rintro ⟨c, c', hp, hq, -⟩
      exact ⟨⟨_, hp, rfl⟩, _, hq, rfl⟩

/-- Two images ask for one type, and a third thread for another one whose constructor throws
there; its next call gets no exception and no object. -/
def threeCallers : List Event :=
  [.call 0 ⟨0, 5⟩, .call 1 ⟨1, 5⟩, .next 0, .next 1, .next 1, .next 1, .next 1, .next 1,
    .construct 1 false, .next 1, .next 0, .next 0, .next 0, .next 1, .call 2 ⟨1, 6⟩, .next 2,
    .next 0, .next 2, .next 2, .next 1, .next 1, .next 2, .next 2, .next 0, .next 0,
    .construct 2 true, .next 2, .next 2, .call 2 ⟨1, 6⟩, .next 2, .next 2, .next 2, .next 2,
    .next 2, .next 2, .next 2]

theorem handleton_once_threeCallers :
    ∃ s, run step (fun _ _ => True) threeCallers (State.init 3) = some s ∧
      s.answers =
        [(5, .pointer (some 0)), (5, .pointer (some 0)), (6, .threw), (6, .pointer none)] ∧
      s.made = [5] ∧ s.made.count 6 + s.thrown.count 6 ≤ 1 := by
  have hrun : (run step (fun _ _ => True) threeCallers (State.init 3)).map
      (fun s => (s.answers, s.made)) =
        some ([(5, .pointer (some 0)), (5, .pointer (some 0)), (6, .threw), (6, .pointer none)],
          [5]) := by decide
  obtain ⟨s, hs, hvalue⟩ := Option.map_eq_some_iff.mp hrun
  obtain ⟨hanswers, hmade⟩ := Prod.mk.inj hvalue
  exact ⟨s, hs, hanswers, hmade, (handleton_once hs 6).1⟩

/-- A thread is in `at` for one type when another one begins to insert a second type. -/
example : (run step (fun _ _ => True)
    [.call 0 ⟨0, 5⟩, .next 0, .next 0, .next 0, .next 0, .next 0, .construct 0 false, .next 0,
      .next 0, .call 1 ⟨0, 6⟩, .next 1, .next 1, .next 1, .next 0, .next 1] (State.init 2)).map
    State.raced = some true := by decide

/-! ### Every call ends -/

/-- The calls in progress. -/
def State.busy (s : State) : ℕ := s.threads.countP fun p => p != .idle

theorem Phase.left_le (p : Phase) : p.left ≤ 10 * one (p != .idle) := by
  cases p <;> simp [left, one]

/-- A call begins, or comes nearer to its end. -/
theorem Step.threads (hst : Step s i p s') : ∃ p', s'.threads = s.threads.set i p' ∧
    (p = .idle ∧ p' ≠ .idle ∧ s'.answers = s.answers ∨
      p ≠ .idle ∧ p'.left < p.left ∧
        s'.answers.length + one (p' != .idle) = s.answers.length + 1) := by
  cases hst with
  | call c => exact ⟨_, rfl, .inl ⟨rfl, by simp, rfl⟩⟩
  | giveUp c | read c =>
    exact ⟨_, rfl, .inr ⟨by simp, by simp [Phase.left], by simp [State.ends, State.setFlag]⟩⟩
  | _ => exact ⟨_, rfl, .inr ⟨by simp, by simp [Phase.left], rfl⟩⟩

theorem busy_set {p' : Phase} (hp : s.threads[i]? = some p)
    (hthreads : s'.threads = s.threads.set i p') :
    s'.busy + one (p != .idle) = s.busy + one (p' != .idle) := by
  rw [State.busy, hthreads]
  exact countP_set_add p' hp

/-- A call is in progress or has ended. -/
theorem step_answers {e : Event} (hst : step s e = some s') :
    s'.answers.length + s'.busy = s.answers.length + s.busy + one e.isCall := by
  obtain ⟨-, i, p, hp, hcall, hstep⟩ := step_cases hst
  obtain ⟨p', hthreads, hcases⟩ := hstep.threads
  have hbusy := busy_set hp hthreads
  rcases hcases with ⟨hidle, hp', hanswers⟩ | ⟨hidle, -, hanswers⟩
  · rw [hcall.mp hidle]
    rw [hidle, bne_self_eq_false, one_false] at hbusy
    have hone : one (p' != .idle) = 1 := by simp [one, hp']
    rw [hanswers, one_true]
    omega
  · have hnot : e.isCall = false := by simpa using fun h => hidle (hcall.mpr h)
    have hone : one (p != .idle) = 1 := by simp [one, hidle]
    rw [hnot, one_false]
    omega

theorem step_left {e : Event} (hst : step s e = some s') (he : e.isCall = false) :
    total Phase.left s'.threads + 1 ≤ total Phase.left s.threads := by
  obtain ⟨-, i, p, hp, hcall, hstep⟩ := step_cases hst
  obtain ⟨p', hthreads, ⟨hidle, -, -⟩ | ⟨-, hlt, -⟩⟩ := hstep.threads
  · rw [hcall.mp hidle] at he
    cases he
  · have htotal : total Phase.left (s.threads.set i p') + p.left =
        total Phase.left s.threads + p'.left := total_set_add p' hp
    rw [hthreads]
    omega

theorem run_answers (hrun : run step (fun _ _ => True) es s = some s') :
    s'.answers.length + s'.busy = s.answers.length + s.busy + es.countP Event.isCall := by
  induction es generalizing s with
  | nil =>
    obtain rfl := Option.some.inj hrun
    rfl
  | cons e es ih =>
    obtain ⟨-, m, hm, hrest⟩ := run_cons.mp hrun
    have hstep := step_answers hm
    have hrest := ih hrest
    rw [List.countP_cons]
    rw [one] at hstep
    omega

theorem run_left (hrun : run step (fun _ _ => True) es s = some s')
    (hes : ∀ e ∈ es, e.isCall = false) :
    total Phase.left s'.threads + es.length ≤ total Phase.left s.threads := by
  refine (run_rank (P := fun _ => True) (fun s => total Phase.left s.threads)
    (fun s e s' _ he hst _ => ⟨trivial, ?_⟩) hrun hes trivial).2
  exact step_left hst he

/-- A thread goes on unless it waits for the mutex or for another thread's lambda. -/
theorem exists_step (hno : s.raced = false) (hp : s.threads[i]? = some p) (hidle : p ≠ .idle)
    (hmutex : ∀ c, p = .locks c → s.mtx = none)
    (hflag : ∀ c, p = .enters c → (s.flags c).runner = none) :
    ∃ e, e.isCall = false ∧ step s e ≠ none := by
  have hnext : (∀ c, p ≠ .constructs c) → s.advance i p ≠ none →
      ∃ e, e.isCall = false ∧ step s e ≠ none :=
    fun _ h => ⟨.next i, rfl, by simpa [step, react, hno, hp] using h⟩
  cases p with
  | idle => exact absurd rfl hidle
  | constructs c => exact ⟨.construct i false, rfl, by simp [step, react, hno, hp]⟩
  | enters c =>
    have hrunner := hflag c rfl
    refine hnext (by simp) ?_
    rw [State.advance, State.callOnce]
    cases hf : s.flags c with
    | running j =>
      rw [hf] at hrunner
      cases hrunner
    | fresh | done => simp
  | locks c => exact hnext (by simp) (by simp [State.advance, hmutex c rfl])
  | settles c threw => cases threw <;> exact hnext (by simp) (by simp [State.advance])
  | _ => exact hnext (by simp) (by simp [State.advance])

/-- While calls are in progress, some thread goes on. -/
theorem Guarded.exists_step (h : Guarded s) (hno : s.raced = false) (hbusy : 0 < s.busy) :
    ∃ e, e.isCall = false ∧ step s e ≠ none := by
  obtain ⟨p, hmem, hidle⟩ := List.countP_pos_iff.mp hbusy
  obtain ⟨i, hp⟩ := List.getElem?_of_mem hmem
  cases hmtx : s.mtx with
  | some j =>
    -- the thread behind the lock never waits
    obtain ⟨q, hq, hhold⟩ := (h.mutex j).mp hmtx
    refine Handleton.exists_step hno hq ?_ ?_ ?_
    · rintro rfl
      cases hhold
    · rintro c rfl
      cases hhold
    · rintro c rfl
      cases hhold
  | none =>
    by_cases hflag : ∀ c, p = .enters c → (s.flags c).runner = none
    · exact Handleton.exists_step hno hp (by simpa using hidle) (fun _ _ => hmtx) hflag
    · push Not at hflag
      obtain ⟨c, rfl, hrunner⟩ := hflag
      obtain ⟨j, hj⟩ := Option.ne_none_iff_exists'.mp hrunner
      obtain ⟨q, hq, hinside⟩ := (h.flag c j).mp hj
      refine Handleton.exists_step hno hq ?_ (fun _ _ => hmtx) ?_
      · rintro rfl
        cases hinside
      · rintro c' rfl
        cases hinside

/-- No call waits for ever, whether the constructors return or throw: while calls are in
progress some thread goes on, and no more than ten steps for each of them are left. In the
end every call has ended, with one answer, unless the run has ended in a race. -/
theorem calls_end (hrun : run step (fun _ _ => True) es (State.init n) = some s) :
    s.answers.length + s.busy = es.countP Event.isCall ∧
      (∀ es' s', (∀ e ∈ es', e.isCall = false) → run step (fun _ _ => True) es' s = some s' →
        es'.length ≤ 10 * s.busy) ∧
      ((∀ e, e.isCall = false → step s e = none) → s.busy = 0 ∨ s.raced = true) := by
  refine ⟨?_, fun es' s' hes' hrun' => ?_, fun hquiet => ?_⟩
  · have hall := run_answers hrun
    have hidle : (State.init n).busy = 0 := by
      simp [State.busy, State.init, List.countP_replicate]
    have hnone : (State.init n).answers.length = 0 := rfl
    omega
  · have hleft := run_left hrun' hes'
    have hbound : total Phase.left s.threads ≤ 10 * s.busy := total_le Phase.left_le
    omega
  · by_contra hnot
    obtain ⟨hbusy, hno⟩ := not_or.mp hnot
    obtain ⟨e, he, hstep⟩ := (sound_of_run hrun).1.exists_step (Bool.not_eq_true _ ▸ hno)
      (Nat.pos_of_ne_zero hbusy)
    exact hstep (hquiet e he)

theorem calls_end_threeCallers :
    ∃ s, run step (fun _ _ => True) threeCallers (State.init 3) = some s ∧
      s.answers.length + s.busy = 4 := by
  have hrun : (run step (fun _ _ => True) threeCallers (State.init 3)).isSome := by decide
  obtain ⟨s, hs⟩ := Option.isSome_iff_exists.mp hrun
  exact ⟨s, hs, (calls_end hs).1⟩

end Runs

end IoTDrive.Framework.Handleton
