import IoTDrive.Lib.Lookup
import IoTDrive.Lib.Transition
import Mathlib.Data.List.Basic
import Mathlib.Data.List.Induction
import Mathlib.Logic.Function.Basic

/-! Dispatchers and the callbacks registered with them. A dispatcher keeps a list of
pointers to callbacks, a callback one pointer back to a dispatcher. An object is known by
its name, which stands for its address and is not used again. The constructors leave the
back pointer as the memory was, which may be null, the address of a dispatcher or neither.
A call is one step: a callback that calls into a dispatcher while it is being notified is
not modelled. -/

namespace IoTDrive.Framework.Dispatcher

open Lib

/-- What the memory of an `m_dispatcher` says; `wild` is an address where no dispatcher is. -/
inductive Pointer where
  | null
  | dispatcher (d : ℕ)
  | wild
  deriving DecidableEq, Repr

/-- The live dispatchers with their `m_reg_list`, the live callbacks with their
`m_dispatcher`, and whether any step has used an object that was destroyed or never was. -/
structure State where
  regList : ℕ → Option (List ℕ)
  dispatcher : ℕ → Option Pointer
  misused : Bool

inductive Event where
  | register (d c : ℕ)
  | unregister (d c : ℕ)
  | notify (d : ℕ)
  | destroyCallback (c : ℕ)
  | destroyDispatcher (d : ℕ)
  deriving DecidableEq, Repr

namespace State

/-- `junk` is what the memory of a callback held before its constructor ran. -/
def init (junk : ℕ → Pointer) : State := ⟨fun _ => some [], fun c => some (junk c), false⟩

/-- A virtual call on a callback, `Notify` or `NotifyDeath`. -/
def use (s : State) (c : ℕ) : State :=
  match s.dispatcher c with
  | some _ => s
  | none => { s with misused := true }

/-- `ACallback::SetDispatcher`. -/
def setDispatcher (s : State) (c : ℕ) (back : Pointer) : State :=
  match s.dispatcher c with
  | some _ => { s with dispatcher := Function.update s.dispatcher c (some back) }
  | none => { s with misused := true }

/-- `Dispatcher::Register`. -/
def register (s : State) (d c : ℕ) : State :=
  match s.regList d with
  | some l =>
    let s' := s.setDispatcher c (.dispatcher d)
    { s' with regList := Function.update s'.regList d (some (l ++ [c])) }
  | none => { s with misused := true }

/-- `Dispatcher::Unregister`; `remove` takes out every copy. -/
def unregister (s : State) (d c : ℕ) : State :=
  match s.regList d with
  | some l =>
    let s' := s.setDispatcher c .null
    { s' with regList := Function.update s'.regList d (some (l.filter fun c' => c' ≠ c)) }
  | none => { s with misused := true }

/-- `Dispatcher::Notify`. -/
def notify (s : State) (d : ℕ) : State :=
  match s.regList d with
  | some l => l.foldl use s
  | none => { s with misused := true }

/-- What `~ACallback` does before the object goes, for the pointer it finds. -/
def leave (s : State) (c : ℕ) : Pointer → State
  | .null => s
  | .dispatcher d => s.unregister d c
  | .wild => { s with misused := true }

/-- `~ACallback`. -/
def destroyCallback (s : State) (c : ℕ) (back : Pointer) : State :=
  let s' := s.leave c back
  { s' with dispatcher := Function.update s'.dispatcher c none }

/-- One round of the loop in `~Dispatcher`. -/
def farewell (s : State) (c : ℕ) : State := (s.use c).setDispatcher c .null

/-- `~Dispatcher`, for the list it finds. -/
def destroyDispatcher (s : State) (d : ℕ) (l : List ℕ) : State :=
  let s' := l.foldl farewell s
  { s' with regList := Function.update s'.regList d none }

end State

/-- Callers use live objects only, and destroy an object once. -/
def step (s : State) : Event → Option State
  | .register d c =>
    if (s.regList d).isSome ∧ (s.dispatcher c).isSome then some (s.register d c) else none
  | .unregister d c =>
    if (s.regList d).isSome ∧ (s.dispatcher c).isSome then some (s.unregister d c) else none
  | .notify d => if (s.regList d).isSome then some (s.notify d) else none
  | .destroyCallback c => (s.dispatcher c).map (s.destroyCallback c)
  | .destroyDispatcher d => (s.regList d).map (s.destroyDispatcher d)

/-- No dispatcher holds a destroyed callback, no callback points to a destroyed dispatcher,
and no destroyed object has been used. -/
structure Safe (s : State) : Prop where
  callbacks_live : ∀ (d : ℕ) (l : List ℕ), s.regList d = some l →
    ∀ c ∈ l, (s.dispatcher c).isSome
  dispatcher_live : ∀ c d : ℕ, s.dispatcher c = some (.dispatcher d) → (s.regList d).isSome
  not_misused : s.misused = false

/-- A callback is destroyed while its pointer is not wild and nobody but the dispatcher it
points to holds it; a dispatcher while nobody points to it whom it does not hold. -/
def Paired (s : State) : Event → Prop
  | .destroyCallback c => s.dispatcher c ≠ some .wild ∧
    ∀ (d : ℕ) (l : List ℕ), s.regList d = some l → c ∈ l → s.dispatcher c = some (.dispatcher d)
  | .destroyDispatcher d => ∀ (c : ℕ) (l : List ℕ), s.regList d = some l →
    s.dispatcher c = some (.dispatcher d) → c ∈ l
  | _ => True

/-- A step is a call on live objects. -/
inductive Step (s : State) : Event → State → Prop where
  | register {d c : ℕ} {l : List ℕ} (hl : s.regList d = some l) (hc : (s.dispatcher c).isSome) :
    Step s (.register d c) (s.register d c)
  | unregister {d c : ℕ} {l : List ℕ} (hl : s.regList d = some l) (hc : (s.dispatcher c).isSome) :
    Step s (.unregister d c) (s.unregister d c)
  | notify {d : ℕ} {l : List ℕ} (hl : s.regList d = some l) : Step s (.notify d) (s.notify d)
  | destroyCallback {c : ℕ} {back : Pointer} (hc : s.dispatcher c = some back) :
    Step s (.destroyCallback c) (s.destroyCallback c back)
  | destroyDispatcher {d : ℕ} {l : List ℕ} (hl : s.regList d = some l) :
    Step s (.destroyDispatcher d) (s.destroyDispatcher d l)

theorem step_cases {s s' : State} {e : Event} (hst : step s e = some s') : Step s e s' := by
  cases e with
  | register d c =>
    obtain ⟨⟨hd, hc⟩, rfl⟩ := Option.ite_some_none_eq_some.mp hst
    obtain ⟨l, hl⟩ := Option.isSome_iff_exists.mp hd
    exact .register hl hc
  | unregister d c =>
    obtain ⟨⟨hd, hc⟩, rfl⟩ := Option.ite_some_none_eq_some.mp hst
    obtain ⟨l, hl⟩ := Option.isSome_iff_exists.mp hd
    exact .unregister hl hc
  | notify d =>
    obtain ⟨hd, rfl⟩ := Option.ite_some_none_eq_some.mp hst
    obtain ⟨l, hl⟩ := Option.isSome_iff_exists.mp hd
    exact .notify hl
  | destroyCallback c =>
    obtain ⟨back, hc, rfl⟩ := Option.map_eq_some_iff.mp hst
    exact .destroyCallback hc
  | destroyDispatcher d =>
    obtain ⟨l, hl, rfl⟩ := Option.map_eq_some_iff.mp hst
    exact .destroyDispatcher hl

/-! ### What the calls do in a safe state -/

namespace State

variable {s : State} {c d : ℕ} {l : List ℕ}

theorem use_eq (h : (s.dispatcher c).isSome) : s.use c = s := by
  obtain ⟨back, hback⟩ := Option.isSome_iff_exists.mp h
  simp [use, hback]

theorem setDispatcher_eq (h : (s.dispatcher c).isSome) (back : Pointer) :
    s.setDispatcher c back =
      { s with dispatcher := Function.update s.dispatcher c (some back) } := by
  obtain ⟨old, hold⟩ := Option.isSome_iff_exists.mp h
  simp [setDispatcher, hold]

theorem register_eq (hl : s.regList d = some l) (hc : (s.dispatcher c).isSome) :
    s.register d c =
      { s with
        regList := Function.update s.regList d (some (l ++ [c]))
        dispatcher := Function.update s.dispatcher c (some (.dispatcher d)) } := by
  simp [register, hl, setDispatcher_eq hc]

theorem unregister_eq (hl : s.regList d = some l) (hc : (s.dispatcher c).isSome) :
    s.unregister d c =
      { s with
        regList := Function.update s.regList d (some (l.filter fun c' => c' ≠ c))
        dispatcher := Function.update s.dispatcher c (some .null) } := by
  simp [unregister, hl, setDispatcher_eq hc]

theorem notify_eq (hl : s.regList d = some l) (h : ∀ c ∈ l, (s.dispatcher c).isSome) :
    s.notify d = s := by
  rw [notify, hl]
  dsimp only
  clear hl
  induction l with
  | nil => rfl
  | cons c l ih =>
    rw [List.foldl_cons, use_eq (h c List.mem_cons_self)]
    exact ih fun c' hc' => h c' (.tail _ hc')

theorem foldl_farewell (h : ∀ c ∈ l, (s.dispatcher c).isSome) :
    l.foldl farewell s =
      { s with dispatcher := fun c => if c ∈ l then some .null else s.dispatcher c } := by
  induction l generalizing s with
  | nil => simp
  | cons c l ih =>
    have hone : s.farewell c =
        { s with dispatcher := Function.update s.dispatcher c (some .null) } := by
      have hc := h c List.mem_cons_self
      rw [farewell, use_eq hc, setDispatcher_eq hc]
    rw [List.foldl_cons, hone, ih]
    · congr 1
      funext c'
      by_cases hc' : c' = c
      · simp [hc']
      · simp [hc', Function.update_of_ne]
    · intro c' hmem
      by_cases hc' : c' = c
      · simp [hc']
      · simpa [hc', Function.update_of_ne] using h c' (.tail _ hmem)

end State

/-! ### One step -/

section Step
variable {s : State} {c d : ℕ} {l : List ℕ}

theorem Safe.register (h : Safe s) (hl : s.regList d = some l)
    (hc : (s.dispatcher c).isSome) : Safe (s.register d c) := by
  rw [State.register_eq hl hc]
  constructor
  case callbacks_live =>
    intro d' l' hl' c' hmem
    apply isSome_update_some
    rcases update_some_eq_some.mp hl' with ⟨rfl, rfl⟩ | ⟨-, hl'⟩
    · rcases List.mem_append.mp hmem with hmem | hmem
      · exact h.callbacks_live d' l hl c' hmem
      · exact List.mem_singleton.mp hmem ▸ hc
    · exact h.callbacks_live d' l' hl' c' hmem
  case dispatcher_live =>
    intro c' d' hc'
    apply isSome_update_some
    rcases update_some_eq_some.mp hc' with ⟨rfl, hback⟩ | ⟨-, hc'⟩
    · obtain rfl := Pointer.dispatcher.inj hback
      simp [hl]
    · exact h.dispatcher_live c' d' hc'
  case not_misused => exact h.not_misused

theorem Safe.unregister (h : Safe s) (hl : s.regList d = some l)
    (hc : (s.dispatcher c).isSome) : Safe (s.unregister d c) := by
  rw [State.unregister_eq hl hc]
  constructor
  case callbacks_live =>
    intro d' l' hl' c' hmem
    apply isSome_update_some
    rcases update_some_eq_some.mp hl' with ⟨rfl, rfl⟩ | ⟨-, hl'⟩
    · exact h.callbacks_live d' l hl c' (List.mem_filter.mp hmem).1
    · exact h.callbacks_live d' l' hl' c' hmem
  case dispatcher_live =>
    intro c' d' hc'
    apply isSome_update_some
    rcases update_some_eq_some.mp hc' with ⟨-, hback⟩ | ⟨-, hc'⟩
    · cases hback
    · exact h.dispatcher_live c' d' hc'
  case not_misused => exact h.not_misused

/-- A callback leaves the list its pointer leads to, and no other one. -/
theorem Safe.leave (h : Safe s) {back : Pointer} (hc : s.dispatcher c = some back)
    (hw : back ≠ .wild) :
    Safe (s.leave c back) ∧ ∀ (d' : ℕ) (l' : List ℕ),
      (s.leave c back).regList d' = some l' ∧ c ∈ l' ↔
        s.regList d' = some l' ∧ c ∈ l' ∧ back ≠ .dispatcher d' := by
  cases back with
  | null => exact ⟨h, by simp [State.leave]⟩
  | wild => exact absurd rfl hw
  | dispatcher d =>
    have hlive : (s.dispatcher c).isSome := by simp [hc]
    obtain ⟨l, hl⟩ := Option.isSome_iff_exists.mp (h.dispatcher_live c d hc)
    refine ⟨h.unregister hl hlive, fun d' l' => ?_⟩
    rw [State.leave, State.unregister_eq hl hlive]
    by_cases hd : d' = d
    · subst hd
      simp only [Function.update_self, Option.some.injEq]
      constructor
      · rintro ⟨rfl, hmem⟩
        simp at hmem
      · rintro ⟨-, -, hne⟩
        exact absurd rfl hne
    · simp [hd, Ne.symm hd]

/-- The callback is gone, and out of the list of one dispatcher at most. -/
theorem safe_destroyCallback_iff (h : Safe s) {back : Pointer}
    (hc : s.dispatcher c = some back) :
    Safe (s.destroyCallback c back) ↔ Paired s (.destroyCallback c) := by
  by_cases hw : back = .wild
  · subst hw
    refine iff_of_false (fun h' => ?_) fun hp => hp.1 hc
    exact Bool.noConfusion h'.not_misused
  have hwild : s.dispatcher c ≠ some .wild := fun h' => hw (Option.some.inj (hc.symm.trans h'))
  obtain ⟨hsafe, hlist⟩ := h.leave hc hw
  rw [State.destroyCallback]
  constructor
  · refine fun h' => ⟨hwild, fun d' l' hl' hmem => ?_⟩
    by_contra hne
    rw [hc, Option.some.injEq] at hne
    have hleft := (hlist d' l').mpr ⟨hl', hmem, hne⟩
    simpa using h'.callbacks_live d' l' hleft.1 c hleft.2
  · intro hpaired
    constructor
    case callbacks_live =>
      intro d' l' hl' c' hmem
      refine isSome_update_none.mpr ⟨?_, hsafe.callbacks_live d' l' hl' c' hmem⟩
      rintro rfl
      have hold := (hlist d' l').mp ⟨hl', hmem⟩
      have hback := hpaired.2 d' l' hold.1 hold.2.1
      rw [hc, Option.some.injEq] at hback
      exact hold.2.2 hback
    case dispatcher_live =>
      intro c' d' hc'
      exact hsafe.dispatcher_live c' d' (update_none_eq_some.mp hc').2
    case not_misused => exact hsafe.not_misused

/-- The dispatcher is gone, and so are the pointers of those it held. -/
theorem safe_destroyDispatcher_iff (h : Safe s) (hl : s.regList d = some l) :
    Safe (s.destroyDispatcher d l) ↔ Paired s (.destroyDispatcher d) := by
  rw [State.destroyDispatcher, State.foldl_farewell (h.callbacks_live d l hl)]
  constructor
  · intro h' c l' hl' hback
    obtain rfl := Option.some.inj (hl.symm.trans hl')
    by_contra hnot
    have hdead := h'.dispatcher_live c d (by simpa [hnot] using hback)
    simp at hdead
  · intro hpaired
    constructor
    case callbacks_live =>
      intro d' l' hl' c' hmem
      have hlive := h.callbacks_live d' l' (update_none_eq_some.mp hl').2 c' hmem
      by_cases hmem' : c' ∈ l
      · simp [hmem']
      · simpa [hmem'] using hlive
    case dispatcher_live =>
      intro c' d' hc'
      by_cases hmem : c' ∈ l
      · simp [hmem] at hc'
      · replace hc' : s.dispatcher c' = some (.dispatcher d') := by simpa [hmem] using hc'
        refine isSome_update_none.mpr ⟨?_, h.dispatcher_live c' d' hc'⟩
        rintro rfl
        exact hmem (hpaired c' l hl hc')
    case not_misused => exact h.not_misused

/-- A step from a safe state leads to a safe one exactly if it keeps links in pairs. -/
theorem step_safe_iff {e : Event} {s' : State} (hst : step s e = some s') (h : Safe s) :
    Safe s' ↔ Paired s e := by
  cases step_cases hst with
  | register hl hc => exact iff_of_true (h.register hl hc) trivial
  | unregister hl hc => exact iff_of_true (h.unregister hl hc) trivial
  | @notify d l hl =>
    have heq := State.notify_eq hl (h.callbacks_live d l hl)
    exact iff_of_true (heq.symm ▸ h) trivial
  | destroyCallback hc => exact safe_destroyCallback_iff h hc
  | destroyDispatcher hl => exact safe_destroyDispatcher_iff h hl

end Step

theorem init_safe (junk : ℕ → Pointer) : Safe (State.init junk) where
  callbacks_live := by simp [State.init]
  dispatcher_live := by simp [State.init]
  not_misused := rfl

/-! ### What the calls so far tell -/

/-- `c` was registered with `d` and not unregistered from it since. -/
def Outstanding (calls : List Event) (d c : ℕ) : Prop :=
  ∃ before after, calls = before ++ .register d c :: after ∧ .unregister d c ∉ after

/-- Since it was last registered, with `d`, the callback `c` was unregistered from nobody,
and no dispatcher with which it was registered was destroyed. -/
def Latest (calls : List Event) (d c : ℕ) : Prop :=
  ∃ before after, calls = before ++ .register d c :: after ∧ ∀ d', .register d' c ∉ after ∧
    .unregister d' c ∉ after ∧
    (.destroyDispatcher d' ∈ after → ¬ Outstanding (before ++ [.register d c]) d' c)

/-- `c` was neither registered nor unregistered. -/
def Untouched (calls : List Event) (c : ℕ) : Prop :=
  ∀ d, .register d c ∉ calls ∧ .unregister d c ∉ calls

/-- A callback is destroyed while its one outstanding registration with a live dispatcher, if
any, is its latest; one that nobody ever registered or unregistered, if what its memory held
at first was not wild. A dispatcher is destroyed while no such callback holds its address. -/
def Orderly (junk : ℕ → Pointer) (calls : List Event) : Event → Prop
  | .destroyCallback c => (Untouched calls c → junk c ≠ .wild) ∧
    ∀ d, .destroyDispatcher d ∉ calls → Outstanding calls d c → Latest calls d c
  | .destroyDispatcher d => ∀ c, .destroyCallback c ∉ calls → Untouched calls c →
    junk c ≠ .dispatcher d
  | _ => True

/-- The calls that write the pointer of `c`. -/
def Resets (calls : List Event) (c : ℕ) : Event → Prop
  | .register _ c' | .unregister _ c' => c' = c
  | .destroyDispatcher d => Outstanding calls d c
  | _ => False

section History
variable {calls : List Event} {e : Event} {junk : ℕ → Pointer} {p : Pointer} {c d : ℕ}

theorem outstanding_concat :
    Outstanding (calls ++ [e]) d c ↔
      e = .register d c ∨ Outstanding calls d c ∧ e ≠ .unregister d c := by
  constructor
  · rintro ⟨before, after, heq, hnot⟩
    rcases List.eq_nil_or_concat after with rfl | ⟨after, e', rfl⟩
    · exact .inl (by simpa using (List.append_inj' heq rfl).2)
    · rw [List.concat_eq_append, ← List.cons_append, ← List.append_assoc] at heq
      obtain ⟨hcalls, he⟩ := List.append_inj' heq rfl
      obtain rfl := List.singleton_inj.mp he
      simp only [List.concat_eq_append, List.mem_append, List.mem_singleton, not_or] at hnot
      exact .inr ⟨⟨before, after, hcalls, hnot.1⟩, Ne.symm hnot.2⟩
  · rintro (rfl | ⟨⟨before, after, rfl, hnot⟩, hne⟩)
    · exact ⟨calls, [], rfl, List.not_mem_nil⟩
    · exact ⟨before, after ++ [e], by simp, by simp [hnot, Ne.symm hne]⟩

/-- Calls that neither register nor unregister `c` do not touch its registrations. -/
theorem outstanding_append {after : List Event}
    (h : ∀ d', .register d' c ∉ after ∧ .unregister d' c ∉ after) :
    Outstanding (calls ++ after) d c ↔ Outstanding calls d c := by
  induction after using List.reverseRecOn with
  | nil => simp
  | append_singleton after e ih =>
    have hd := h d
    simp only [List.mem_append, List.mem_singleton, not_or] at h hd
    rw [← List.append_assoc, outstanding_concat, ih fun d' => ⟨(h d').1.1, (h d').2.1⟩]
    simp [Ne.symm hd.1.2, Ne.symm hd.2.2]

theorem latest_concat :
    Latest (calls ++ [e]) d c ↔ e = .register d c ∨ Latest calls d c ∧ ¬ Resets calls c e := by
  constructor
  · rintro ⟨before, after, heq, hnot⟩
    rcases List.eq_nil_or_concat after with rfl | ⟨after, e', rfl⟩
    · exact .inl (by simpa using (List.append_inj' heq rfl).2)
    · rw [List.concat_eq_append, ← List.cons_append, ← List.append_assoc] at heq
      obtain ⟨rfl, he⟩ := List.append_inj' heq rfl
      obtain rfl := List.singleton_inj.mp he
      simp only [List.concat_eq_append, List.mem_append, List.mem_singleton, not_or] at hnot
      refine .inr ⟨⟨before, after, rfl, fun d' => ?_⟩, ?_⟩
      · exact ⟨(hnot d').1.1, (hnot d').2.1.1, fun hm => (hnot d').2.2 (.inl hm)⟩
      · cases e with
        | register d' c' => exact fun hc => (hnot d').1.2 (by rw [show c' = c from hc])
        | unregister d' c' => exact fun hc => (hnot d').2.1.2 (by rw [show c' = c from hc])
        | destroyDispatcher d' =>
          intro hout
          rw [Resets, List.append_cons,
            outstanding_append fun d' => ⟨(hnot d').1.1, (hnot d').2.1.1⟩] at hout
          exact (hnot d').2.2 (.inr rfl) hout
        | _ => exact not_false
  · rintro (rfl | ⟨⟨before, after, rfl, hnot⟩, hres⟩)
    · exact ⟨calls, [], rfl, by simp⟩
    · refine ⟨before, after ++ [e], by simp, fun d' => ⟨?_, ?_, ?_⟩⟩
      · simp only [List.mem_append, List.mem_singleton, not_or]
        exact ⟨(hnot d').1, fun he => hres (by rw [← he]; rfl)⟩
      · simp only [List.mem_append, List.mem_singleton, not_or]
        exact ⟨(hnot d').2.1, fun he => hres (by rw [← he]; rfl)⟩
      · simp only [List.mem_append, List.mem_singleton]
        rintro (hm | rfl) hout
        · exact (hnot d').2.2 hm hout
        · refine hres ?_
          rw [Resets, List.append_cons,
            outstanding_append fun d' => ⟨(hnot d').1, (hnot d').2.1⟩]
          exact hout

theorem untouched_concat :
    Untouched (calls ++ [e]) c ↔
      Untouched calls c ∧ ∀ d, e ≠ .register d c ∧ e ≠ .unregister d c := by
  simp only [Untouched, List.mem_append, List.mem_singleton, not_or]
  constructor
  · exact fun h => ⟨fun d => ⟨(h d).1.1, (h d).2.1⟩,
      fun d => ⟨Ne.symm (h d).1.2, Ne.symm (h d).2.2⟩⟩
  · exact fun h d => ⟨⟨(h.1 d).1, Ne.symm (h.2 d).1⟩, (h.1 d).2, Ne.symm (h.2 d).2⟩

theorem Outstanding.not_untouched (h : Outstanding calls d c) : ¬ Untouched calls c := by
  obtain ⟨before, after, rfl, -⟩ := h
  exact fun hu => (hu d).1 (by simp)

/-- What the calls tell of the pointer of a callback. -/
structure PointsTo (junk : ℕ → Pointer) (calls : List Event) (c : ℕ) (p : Pointer) : Prop where
  dispatcher_iff : ∀ d, p = .dispatcher d ↔
    Latest calls d c ∨ Untouched calls c ∧ junk c = .dispatcher d
  wild_iff : p = .wild ↔ Untouched calls c ∧ junk c = .wild

theorem PointsTo.kept (h : PointsTo junk calls c p) (hne : ¬ Resets calls c e) :
    PointsTo junk (calls ++ [e]) c p := by
  have hreg : ∀ d, e ≠ .register d c := by
    rintro d rfl
    exact hne rfl
  have hun : Untouched (calls ++ [e]) c ↔ Untouched calls c := by
    rw [untouched_concat, and_iff_left]
    refine fun d => ⟨hreg d, ?_⟩
    rintro rfl
    exact hne rfl
  constructor
  case dispatcher_iff =>
    intro d
    rw [h.dispatcher_iff, latest_concat, hun]
    simp [hreg, hne]
  case wild_iff => rw [h.wild_iff, hun]

theorem PointsTo.cleared (hr : Resets calls c e) (hreg : ∀ d, e ≠ .register d c) :
    PointsTo junk (calls ++ [e]) c .null := by
  have hun : ¬ Untouched (calls ++ [e]) c := by
    rw [untouched_concat]
    rintro ⟨hu, hne⟩
    cases e with
    | register d' c' => exact hreg d' (by rw [show c' = c from hr])
    | unregister d' c' => exact (hne d').2 (by rw [show c' = c from hr])
    | destroyDispatcher d' => exact Outstanding.not_untouched hr hu
    | _ => exact hr
  constructor
  case dispatcher_iff =>
    intro d
    rw [latest_concat]
    simp [hreg, hr, hun]
  case wild_iff => simp [hun]

theorem PointsTo.registered : PointsTo junk (calls ++ [.register d c]) c (.dispatcher d) := by
  have hun : ¬ Untouched (calls ++ [.register d c]) c := fun h => (h d).1 (by simp)
  constructor
  case dispatcher_iff =>
    intro d'
    rw [latest_concat]
    simp [Resets, hun]
  case wild_iff => simp [hun]

end History

/-- The state is what the calls so far have left behind. -/
structure Tracks (junk : ℕ → Pointer) (calls : List Event) (s : State) : Prop where
  dispatcher_live : ∀ d, (s.regList d).isSome ↔ .destroyDispatcher d ∉ calls
  callback_live : ∀ c, (s.dispatcher c).isSome ↔ .destroyCallback c ∉ calls
  mem_iff : ∀ (d : ℕ) (l : List ℕ) (c : ℕ), s.regList d = some l → (s.dispatcher c).isSome →
    (c ∈ l ↔ Outstanding calls d c)
  pointsTo : ∀ (c : ℕ) (p : Pointer), s.dispatcher c = some p → PointsTo junk calls c p

section Tracks
variable {junk : ℕ → Pointer} {calls : List Event} {s s' : State} {c d : ℕ} {l : List ℕ}

/-- On the state, the condition on the calls is that links are in pairs. -/
theorem Tracks.paired_iff (h : Tracks junk calls s) {e : Event} (hst : step s e = some s') :
    Paired s e ↔ Orderly junk calls e := by
  cases step_cases hst with
  | register | unregister | notify => exact Iff.rfl
  | @destroyCallback c back hc =>
    have hlive : (s.dispatcher c).isSome := by simp [hc]
    have hback := h.pointsTo c back hc
    have hwild : s.dispatcher c ≠ some .wild ↔ (Untouched calls c → junk c ≠ .wild) := by
      rw [hc, Ne, Option.some.injEq, hback.wild_iff, not_and]
    refine and_congr hwild ⟨fun hp d hd hout => ?_, fun ho d l hl hmem => ?_⟩
    · obtain ⟨l, hl⟩ := Option.isSome_iff_exists.mp ((h.dispatcher_live d).mpr hd)
      have hpd := hp d l hl ((h.mem_iff d l c hl hlive).mpr hout)
      rw [hc, Option.some.injEq, hback.dispatcher_iff] at hpd
      exact hpd.resolve_right fun hu => hout.not_untouched hu.1
    · have hd := (h.dispatcher_live d).mp (by simp [hl])
      rw [hc, Option.some.injEq, hback.dispatcher_iff]
      exact .inl (ho d hd ((h.mem_iff d l c hl hlive).mp hmem))
  | @destroyDispatcher d l hl =>
    have hd := (h.dispatcher_live d).mp (by simp [hl])
    constructor
    · intro hp c hc hun hj
      obtain ⟨p, hpc⟩ := Option.isSome_iff_exists.mp ((h.callback_live c).mpr hc)
      have hpd := ((h.pointsTo c p hpc).dispatcher_iff d).mpr (.inr ⟨hun, hj⟩)
      have hmem := hp c l hl (hpd ▸ hpc)
      exact Outstanding.not_untouched ((h.mem_iff d l c hl (by simp [hpc])).mp hmem) hun
    · intro ho c l' hl' hpc
      obtain rfl := Option.some.inj (hl.symm.trans hl')
      have hc := (h.callback_live c).mp (by simp [hpc])
      rw [h.mem_iff d l c hl (by simp [hpc])]
      rcases ((h.pointsTo c _ hpc).dispatcher_iff d).mp rfl with hlast | ⟨hun, hj⟩
      · obtain ⟨before, after, rfl, hnot⟩ := hlast
        exact ⟨before, after, rfl, (hnot d).2.1⟩
      · exact absurd hj (ho c hc hun)

theorem Tracks.init : Tracks junk [] (State.init junk) where
  dispatcher_live := by simp [State.init]
  callback_live := by simp [State.init]
  mem_iff := by
    rintro d l c ⟨⟩ -
    simp [Outstanding]
  pointsTo := by
    rintro c p ⟨⟩
    constructor <;> simp [Latest, Untouched]

theorem Tracks.register (h : Tracks junk calls s) (hl : s.regList d = some l)
    (hc : (s.dispatcher c).isSome) :
    Tracks junk (calls ++ [.register d c]) (s.register d c) := by
  rw [State.register_eq hl hc]
  constructor
  case dispatcher_live =>
    intro d'
    rw [isSome_update hl, h.dispatcher_live]
    simp
  case callback_live =>
    intro c'
    obtain ⟨back, hback⟩ := Option.isSome_iff_exists.mp hc
    rw [isSome_update hback, h.callback_live]
    simp
  case mem_iff =>
    intro d' l' c' hl' hc'
    obtain ⟨back, hback⟩ := Option.isSome_iff_exists.mp hc
    replace hc' := (isSome_update hback).mp hc'
    rw [outstanding_concat]
    rcases update_some_eq_some.mp hl' with ⟨rfl, rfl⟩ | ⟨hd, hl'⟩
    · rw [List.mem_append, List.mem_singleton, h.mem_iff d' l c' hl hc', or_comm]
      simp [@eq_comm _ c]
    · rw [h.mem_iff d' l' c' hl' hc']
      simp [Ne.symm hd]
  case pointsTo =>
    intro c' p hp
    rcases update_some_eq_some.mp hp with ⟨rfl, rfl⟩ | ⟨hne, hp⟩
    · exact PointsTo.registered
    · exact (h.pointsTo c' p hp).kept (Ne.symm hne)

theorem Tracks.unregister (h : Tracks junk calls s) (hl : s.regList d = some l)
    (hc : (s.dispatcher c).isSome) :
    Tracks junk (calls ++ [.unregister d c]) (s.unregister d c) := by
  obtain ⟨back, hback⟩ := Option.isSome_iff_exists.mp hc
  rw [State.unregister_eq hl hc]
  constructor
  case dispatcher_live =>
    intro d'
    rw [isSome_update hl, h.dispatcher_live]
    simp
  case callback_live =>
    intro c'
    rw [isSome_update hback, h.callback_live]
    simp
  case mem_iff =>
    intro d' l' c' hl' hc'
    replace hc' := (isSome_update hback).mp hc'
    rw [outstanding_concat]
    rcases update_some_eq_some.mp hl' with ⟨rfl, rfl⟩ | ⟨hd, hl'⟩
    · rw [List.mem_filter, h.mem_iff d' l c' hl hc']
      simp [@eq_comm _ c]
    · rw [h.mem_iff d' l' c' hl' hc']
      simp [Ne.symm hd]
  case pointsTo =>
    intro c' p hp
    rcases update_some_eq_some.mp hp with ⟨rfl, rfl⟩ | ⟨hne, hp⟩
    · exact PointsTo.cleared rfl (by simp)
    · exact (h.pointsTo c' p hp).kept (Ne.symm hne)

theorem Tracks.notify (h : Tracks junk calls s) : Tracks junk (calls ++ [.notify d]) s where
  dispatcher_live d' := by simp [h.dispatcher_live]
  callback_live c := by simp [h.callback_live]
  mem_iff d' l c hl hc := by
    rw [h.mem_iff d' l c hl hc, outstanding_concat]
    simp
  pointsTo c p hp := (h.pointsTo c p hp).kept not_false

/-- What the destructor of a callback leaves of the others. -/
theorem State.destroyCallback_eq (h : Safe s) {back : Pointer}
    (hc : s.dispatcher c = some back) :
    (s.destroyCallback c back).dispatcher = Function.update s.dispatcher c none ∧
      ∀ d, ((s.destroyCallback c back).regList d).isSome = (s.regList d).isSome ∧
        ∀ l', (s.destroyCallback c back).regList d = some l' →
          ∃ l, s.regList d = some l ∧ ∀ c', c' ≠ c → (c' ∈ l' ↔ c' ∈ l) := by
  cases back with
  | null | wild =>
    exact ⟨rfl, fun d => ⟨rfl, fun l' hl' => ⟨l', hl', fun _ _ => Iff.rfl⟩⟩⟩
  | dispatcher d =>
    obtain ⟨l, hl⟩ := Option.isSome_iff_exists.mp (h.dispatcher_live c d hc)
    rw [State.destroyCallback, State.leave, State.unregister_eq hl (by simp [hc])]
    refine ⟨by simp, fun d' => ⟨?_, fun l' hl' => ?_⟩⟩
    · rw [Bool.eq_iff_iff, isSome_update hl]
    · rcases update_some_eq_some.mp hl' with ⟨rfl, rfl⟩ | ⟨-, hl'⟩
      · exact ⟨l, hl, fun c' hne => by simp [hne]⟩
      · exact ⟨l', hl', fun _ _ => Iff.rfl⟩

theorem Tracks.destroyCallback (h : Tracks junk calls s) (hs : Safe s) {back : Pointer}
    (hc : s.dispatcher c = some back) :
    Tracks junk (calls ++ [.destroyCallback c]) (s.destroyCallback c back) := by
  obtain ⟨hpointers, hlists⟩ := State.destroyCallback_eq hs hc
  constructor
  case dispatcher_live =>
    intro d
    rw [(hlists d).1, h.dispatcher_live]
    simp
  case callback_live =>
    intro c'
    rw [hpointers, isSome_update_none, h.callback_live]
    simp [and_comm]
  case mem_iff =>
    intro d l' c' hl' hc'
    rw [hpointers] at hc'
    obtain ⟨hne, hc'⟩ := isSome_update_none.mp hc'
    obtain ⟨l, hl, hmem⟩ := (hlists d).2 l' hl'
    rw [hmem c' hne, h.mem_iff d l c' hl hc', outstanding_concat]
    simp
  case pointsTo =>
    intro c' p hp
    rw [hpointers] at hp
    exact (h.pointsTo c' p (update_none_eq_some.mp hp).2).kept not_false

theorem Tracks.destroyDispatcher (h : Tracks junk calls s) (hs : Safe s)
    (hl : s.regList d = some l) :
    Tracks junk (calls ++ [.destroyDispatcher d]) (s.destroyDispatcher d l) := by
  rw [State.destroyDispatcher, State.foldl_farewell (hs.callbacks_live d l hl)]
  have hlive : ∀ c', (if c' ∈ l then some .null else s.dispatcher c').isSome ↔
      (s.dispatcher c').isSome := by
    intro c'
    split_ifs with hmem
    · simp [hs.callbacks_live d l hl c' hmem]
    · rfl
  constructor
  case dispatcher_live =>
    intro d'
    rw [isSome_update_none, h.dispatcher_live]
    simp [and_comm]
  case callback_live =>
    intro c'
    rw [hlive, h.callback_live]
    simp
  case mem_iff =>
    intro d' l' c' hl' hc'
    rw [h.mem_iff d' l' c' (update_none_eq_some.mp hl').2 ((hlive c').mp hc'), outstanding_concat]
    simp
  case pointsTo =>
    intro c' p hp
    by_cases hmem : c' ∈ l
    · obtain rfl : Pointer.null = p := by simpa [hmem] using hp
      have hout := (h.mem_iff d l c' hl (hs.callbacks_live d l hl c' hmem)).mp hmem
      exact PointsTo.cleared hout (by simp)
    · replace hp : s.dispatcher c' = some p := by simpa [hmem] using hp
      exact (h.pointsTo c' p hp).kept fun hout =>
        hmem ((h.mem_iff d l c' hl (by simp [hp])).mpr hout)

theorem Tracks.step {e : Event} (h : Tracks junk calls s) (hs : Safe s)
    (hst : step s e = some s') : Tracks junk (calls ++ [e]) s' := by
  cases step_cases hst with
  | register hl hc => exact h.register hl hc
  | unregister hl hc => exact h.unregister hl hc
  | @notify d l hl =>
    rw [State.notify_eq hl (hs.callbacks_live d l hl)]
    exact h.notify
  | destroyCallback hc => exact h.destroyCallback hs hc
  | destroyDispatcher hl => exact h.destroyDispatcher hs hl

end Tracks

/-- Whatever is called in whatever order, and whatever the memory of the callbacks held at
first: no destroyed object is kept or used, if and only if every callback is destroyed after
the dispatcher with which it was last registered is the only one left that has it, and no
pointer that was never set is followed or outlives the dispatcher it happens to name. -/
theorem dispatchers_safe_iff (junk : ℕ → Pointer) (es : List Event) :
    Always step Safe es (State.init junk) ↔
      ObeysAfter step (Orderly junk) [] es (State.init junk) :=
  always_iff_obeysAfter (I := Tracks junk) (fun _ _ _ _ hst ht hs => ht.step hs hst)
    (fun _ _ _ _ hst ht hs => (step_safe_iff hst hs).trans (ht.paired_iff hst))
    Tracks.init (init_safe junk)

/-! ### One dispatcher at a time -/

/-- A callback is registered only while no dispatcher holds it, and unregistered from
nobody but its holder. -/
def Single (s : State) : Event → Prop
  | .register _ c => ∀ (d : ℕ) (l : List ℕ), s.regList d = some l → c ∉ l
  | .unregister d c => ∀ (d' : ℕ) (l : List ℕ), s.regList d' = some l → c ∈ l → d' = d
  | _ => True

/-- The pointers of the callbacks and the lists of the dispatchers agree. -/
structure Linked (s : State) : Prop where
  safe : Safe s
  not_wild : ∀ c, s.dispatcher c ≠ some .wild
  back_eq : ∀ (d : ℕ) (l : List ℕ) (c : ℕ), s.regList d = some l → c ∈ l →
    s.dispatcher c = some (.dispatcher d)
  mem_of_back : ∀ (d : ℕ) (l : List ℕ) (c : ℕ), s.regList d = some l →
    s.dispatcher c = some (.dispatcher d) → c ∈ l

section Linked
variable {s s' : State} {c d : ℕ} {l : List ℕ}

theorem Linked.paired (h : Linked s) (e : Event) : Paired s e := by
  cases e with
  | destroyCallback c => exact ⟨h.not_wild c, fun d l hl hmem => h.back_eq d l c hl hmem⟩
  | destroyDispatcher d => exact fun c l hl hback => h.mem_of_back d l c hl hback
  | _ => trivial

theorem Linked.register (h : Linked s) (hl : s.regList d = some l)
    (hc : (s.dispatcher c).isSome) (hfree : Single s (.register d c)) :
    Linked (s.register d c) := by
  have hsafe := h.safe.register hl hc
  rw [State.register_eq hl hc] at hsafe ⊢
  constructor
  case safe => exact hsafe
  case not_wild =>
    intro c' hw
    rcases update_some_eq_some.mp hw with ⟨-, hd⟩ | ⟨-, hw⟩
    · cases hd
    · exact h.not_wild c' hw
  case back_eq =>
    intro d' l' c' hl' hmem
    apply update_some_eq_some.mpr
    rcases update_some_eq_some.mp hl' with ⟨hd, heq⟩ | ⟨-, hold⟩
    · by_cases hcc : c' = c
      · exact .inl ⟨hcc, by rw [hd]⟩
      · have hmem' : c' ∈ l := by simpa [← heq, hcc] using hmem
        exact .inr ⟨hcc, hd ▸ h.back_eq d l c' hl hmem'⟩
    · refine .inr ⟨fun hcc => ?_, h.back_eq d' l' c' hold hmem⟩
      exact hfree d' l' hold (hcc ▸ hmem)
  case mem_of_back =>
    intro d' l' c' hl' hback
    rcases update_some_eq_some.mp hback with ⟨hcc, hd⟩ | ⟨-, hold⟩
    · obtain rfl : d = d' := by simpa using hd
      obtain rfl : l ++ [c] = l' := by simpa using hl'
      simp [hcc]
    · rcases update_some_eq_some.mp hl' with ⟨hd, heq⟩ | ⟨-, hl'⟩
      · rw [← heq]
        exact List.mem_append_left _ (h.mem_of_back d l c' hl (hd ▸ hold))
      · exact h.mem_of_back d' l' c' hl' hold

theorem Linked.unregister (h : Linked s) (hl : s.regList d = some l)
    (hc : (s.dispatcher c).isSome) (hown : Single s (.unregister d c)) :
    Linked (s.unregister d c) := by
  have hsafe := h.safe.unregister hl hc
  rw [State.unregister_eq hl hc] at hsafe ⊢
  constructor
  case safe => exact hsafe
  case not_wild =>
    intro c' hw
    rcases update_some_eq_some.mp hw with ⟨-, hnull⟩ | ⟨-, hw⟩
    · cases hnull
    · exact h.not_wild c' hw
  case back_eq =>
    intro d' l' c' hl' hmem
    apply update_some_eq_some.mpr
    rcases update_some_eq_some.mp hl' with ⟨hd, heq⟩ | ⟨hd, hold⟩
    · rw [← heq] at hmem
      obtain ⟨hmem, hne⟩ := List.mem_filter.mp hmem
      exact .inr ⟨by simpa using hne, hd ▸ h.back_eq d l c' hl hmem⟩
    · refine .inr ⟨fun hcc => ?_, h.back_eq d' l' c' hold hmem⟩
      exact hd (hown d' l' hold (hcc ▸ hmem))
  case mem_of_back =>
    intro d' l' c' hl' hback
    rcases update_some_eq_some.mp hback with ⟨-, hnone⟩ | ⟨hcc, hback⟩
    · cases hnone
    · rcases update_some_eq_some.mp hl' with ⟨hd, heq⟩ | ⟨-, hl'⟩
      · rw [← heq]
        exact List.mem_filter.mpr
          ⟨h.mem_of_back d l c' hl (hd ▸ hback), by simpa using hcc⟩
      · exact h.mem_of_back d' l' c' hl' hback

/-- The holder of a callback is the dispatcher it points to. -/
theorem Linked.single (h : Linked s) {back : Pointer} (hc : s.dispatcher c = some back) :
    ∀ (d' : ℕ) (l' : List ℕ), s.regList d' = some l' → c ∈ l' → back = .dispatcher d' := by
  intro d' l' hl' hmem
  have hback := h.back_eq d' l' c hl' hmem
  rw [hc, Option.some.injEq] at hback
  exact hback

theorem Linked.destroyCallback (h : Linked s) {back : Pointer}
    (hc : s.dispatcher c = some back) : Linked (s.destroyCallback c back) := by
  have hsafe := (safe_destroyCallback_iff h.safe hc).mpr (h.paired _)
  -- before the object goes, it is in no list any more
  have hcut : Linked (s.leave c back) ∧
      ∀ (d' : ℕ) (l' : List ℕ), (s.leave c back).regList d' = some l' → c ∉ l' := by
    cases back with
    | wild => exact absurd hc (h.not_wild c)
    | null =>
      refine ⟨h, fun d' l' hl' hmem => ?_⟩
      cases h.single hc d' l' hl' hmem
    | dispatcher d =>
      obtain ⟨l, hl⟩ := Option.isSome_iff_exists.mp (h.safe.dispatcher_live c d hc)
      have hlive : (s.dispatcher c).isSome := by simp [hc]
      have hun := h.unregister hl hlive fun d' l' hl' hmem =>
        (Pointer.dispatcher.inj (h.single hc d' l' hl' hmem)).symm
      refine ⟨hun, fun d' l' hl' hmem => ?_⟩
      have hback := hun.back_eq d' l' c hl' hmem
      change (s.unregister d c).dispatcher c = _ at hback
      rw [State.unregister_eq hl hlive] at hback
      simp at hback
  obtain ⟨hlinked, hnot⟩ := hcut
  constructor
  case safe => exact hsafe
  case not_wild => exact fun c' hw => hlinked.not_wild c' (update_none_eq_some.mp hw).2
  case back_eq =>
    intro d' l' c' hl' hmem
    refine update_none_eq_some.mpr ⟨fun hcc => ?_, hlinked.back_eq d' l' c' hl' hmem⟩
    exact hnot d' l' hl' (hcc ▸ hmem)
  case mem_of_back =>
    exact fun d' l' c' hl' hback =>
      hlinked.mem_of_back d' l' c' hl' (update_none_eq_some.mp hback).2

theorem Linked.destroyDispatcher (h : Linked s) (hl : s.regList d = some l) :
    Linked (s.destroyDispatcher d l) := by
  have hsafe := (safe_destroyDispatcher_iff h.safe hl).mpr (h.paired _)
  rw [State.destroyDispatcher, State.foldl_farewell (h.safe.callbacks_live d l hl)]
    at hsafe ⊢
  constructor
  case safe => exact hsafe
  case not_wild =>
    intro c' hw
    by_cases hmem : c' ∈ l
    · simp [hmem] at hw
    · exact h.not_wild c' (by simpa [hmem] using hw)
  case back_eq =>
    intro d' l' c' hl' hmem
    obtain ⟨hd, hold⟩ := update_none_eq_some.mp hl'
    have hback := h.back_eq d' l' c' hold hmem
    have hnot : c' ∉ l := fun hmem' =>
      hd (Pointer.dispatcher.inj (h.single hback d l hl hmem'))
    simpa [hnot] using hback
  case mem_of_back =>
    intro d' l' c' hl' hback
    by_cases hmem : c' ∈ l
    · simp [hmem] at hback
    · exact h.mem_of_back d' l' c' (update_none_eq_some.mp hl').2 (by simpa [hmem] using hback)

theorem step_linked {e : Event} (hone : Single s e) (hst : step s e = some s')
    (h : Linked s) : Linked s' := by
  cases step_cases hst with
  | register hl hc => exact h.register hl hc hone
  | unregister hl hc => exact h.unregister hl hc hone
  | @notify d l hl =>
    have heq := State.notify_eq hl (h.safe.callbacks_live d l hl)
    exact heq.symm ▸ h
  | destroyCallback hc => exact h.destroyCallback hc
  | destroyDispatcher hl => exact h.destroyDispatcher hl

end Linked

/-- Callbacks whose memory was clear and that one dispatcher at a time holds are safe. -/
theorem dispatchers_safe_of_single {es : List Event}
    (h : Obeys step Single es (State.init fun _ => .null)) :
    Always step Safe es (State.init fun _ => .null) := by
  have hinit : Linked (State.init fun _ => .null) :=
    ⟨init_safe _, by simp [State.init], by rintro d l c ⟨⟩ ⟨⟩, by simp [State.init]⟩
  exact (always_of_obeys (fun _ _ _ hone hst hs => step_linked hone hst hs) h hinit).imp
    fun _ hs => hs.safe

/-- One callback is registered with the dispatchers of two tickets and destroyed; then the
first dispatcher is. -/
theorem dispatchers_use_destroyed :
    ¬ Always step Safe
      [.register 1 7, .register 2 7, .destroyCallback 7, .destroyDispatcher 1]
      (State.init fun _ => .null) := by
  intro h
  have h := (((h.2 _ rfl).2 _ rfl).2 _ rfl).2 _ rfl
  exact absurd (Always.head h).not_misused (by decide)

end IoTDrive.Framework.Dispatcher
