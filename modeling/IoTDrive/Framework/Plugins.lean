import IoTDrive.Framework.Loader
import IoTDrive.Lib.Lookup
import IoTDrive.Lib.Transition
import Mathlib.Data.Int.Notation

/-! Plugins and the command factory. The constructor of a library registers creators when the
library is mapped. The loader has a table of open plugins, the factory one of creators, and
neither knows of the other. A creator in the factory is a function of the library that
registered it: it is called by `Create`, and by the `Register` that overwrites it. -/

namespace IoTDrive.Framework.Plugins

open Lib

/-- A function that makes commands, and the mapping its code is in; none for the main
program. -/
structure Creator where
  owner : Option Handle
  id : ℕ
  deriving DecidableEq, Repr

/-- The loader and the factory. For each mapping stands in `replaced` what its keys held before
it. `misused` tells that a call went to a library that was not mapped, `unrestored` that a
library was closed and left a key with neither its old creator nor none. -/
structure State extends Loader where
  factory : ℤ → Option Creator
  replaced : Handle → List (ℤ × Option Creator)
  misused : Bool
  unrestored : Bool

inductive Event where
  /-- a plugin file was written; `found` is the library it holds, if `dlopen` can open it -/
  | opened (fileName : String) (found : Option ℕ)
  /-- a plugin file was deleted -/
  | closed (fileName : String)
  | register (key : ℤ) (creator : Creator)
  | create (key : ℤ)
  deriving DecidableEq, Repr

namespace State

def init : State := ⟨.init, fun _ => none, fun _ => [], false, false⟩

/-- The creator of a key, if it has one, can be called. -/
def Callable (s : State) (key : ℤ) : Prop := ∀ c ∈ s.factory key, ∀ h ∈ c.owner, s.Mapped h

instance (s : State) (key : ℤ) : Decidable (s.Callable key) :=
  inferInstanceAs (Decidable (∀ c ∈ s.factory key, _))

/-- `Factory::Register`; the function that it overwrites is destroyed by code of its own. -/
def register (s : State) (key : ℤ) (creator : Creator) : State :=
  { s with
    factory := Function.update s.factory key (some creator)
    misused := s.misused || !decide (s.Callable key) }

/-- `Factory::Create`: a missing key throws, a creator is called. -/
def create (s : State) (key : ℤ) : Except String State :=
  match s.factory key with
  | none => .error "Key doesn't exist."
  | some _ => .ok { s with misused := s.misused || !decide (s.Callable key) }

/-- `SoMain` of the library that is mapped as `h`: one creator for each of its keys. -/
def soMain (libs : Libraries) (s : State) (h : Handle) : State :=
  let keys := libs.keys h.lib
  let s' := keys.foldl (fun s key => s.register key ⟨some h, 0⟩) s
  { s' with replaced := Function.update s.replaced h (keys.map fun key => (key, s.factory key)) }

/-- Every key of a mapping holds what it held before, or nothing. -/
def Restored (s : State) (h : Handle) : Prop :=
  ∀ p ∈ s.replaced h, s.factory p.1 = p.2 ∨ s.factory p.1 = none

instance (s : State) (h : Handle) : Decidable (s.Restored h) :=
  inferInstanceAs (Decidable (∀ p ∈ s.replaced h, _))

/-- `DLLLoader::Load`, and what the constructor does meanwhile. -/
def load (libs : Libraries) (s : State) (fileName : String) (found : Option ℕ) :
    Except String State :=
  match s.toLoader.load fileName found with
  | .error what => .error what
  | .ok (l, none) => .ok { s with toLoader := l }
  | .ok (l, some h) => .ok (({ s with toLoader := l } : State).soMain libs h)

/-- A handle is given back; `SoExit` leaves the factory alone. -/
def dlclose (libs : Libraries) (s : State) (h : Handle) : State :=
  { s with
    toLoader := s.toLoader.dlclose libs h
    unrestored := s.unrestored || decide (s.refs h.lib = 1 ∧ ¬ s.Restored h) }

/-- `DLLLoader::Unload`. -/
def unload (libs : Libraries) (s : State) (fileName : String) : Except String State :=
  match s.dllMap.lookup fileName with
  | none => .error "Plugin doesn't exist"
  | some h =>
    let s' := s.dlclose libs h
    .ok { s' with dllMap := s'.dllMap.erase fileName }

end State

/-- Only code that is mapped registers its functions; what throws does nothing. -/
def step (libs : Libraries) (s : State) : Event → Option State
  | .opened fileName found => (s.load libs fileName found).toOption
  | .closed fileName => (s.unload libs fileName).toOption
  | .register key creator =>
    if ∀ h ∈ creator.owner, s.Mapped h then some (s.register key creator) else none
  | .create key => (s.create key).toOption

/-- Creators are of the main program or of a library in the table of the loader, no call has
gone to a library that was not mapped, and every library that was closed left each key with
its old creator or none. -/
structure Safe (s : State) : Prop where
  creators_loaded : ∀ (key : ℤ) (c : Creator) (h : Handle),
    s.factory key = some c → c.owner = some h → s.Loaded h
  not_misused : s.misused = false
  restored : s.unrestored = false

/-- The last handle of a library is given back when no creator of it is left and its keys are
restored; what is registered is of a library that the loader has. -/
def Vacated (s : State) : Event → Prop
  | .closed fileName => ∀ h, s.dllMap.lookup fileName = some h → s.refs h.lib = 1 →
    (∀ (key : ℤ) (c : Creator), s.factory key = some c → c.owner ≠ some h) ∧ s.Restored h
  | .register _ creator => ∀ h ∈ creator.owner, s.Loaded h
  | _ => True

/-! ### One step -/

section Step
variable {libs : Libraries} {s s' : State} {l : Loader} {fileName : String} {h : Handle}

/-- Creators of one mapped library come under a list of keys. -/
theorem foldl_register (ks : List ℤ) (c : Creator) (s : State)
    (hc : ∀ h ∈ c.owner, s.Mapped h) :
    ks.foldl (fun s key => s.register key c) s =
      { s with
        factory := fun key => if key ∈ ks then some c else s.factory key
        misused := s.misused || ks.any fun key => !decide (s.Callable key) } := by
  induction ks generalizing s with
  | nil => simp
  | cons k ks ih =>
    rw [List.foldl_cons, ih (s.register k c) hc]
    have hfactory : (fun key => if key ∈ ks then some c else (s.register k c).factory key) =
        fun key => if key ∈ k :: ks then some c else s.factory key := by
      funext key
      by_cases hk : key = k
      · simp [State.register, hk]
      · simp [State.register, hk]
    have hcallable : ∀ key, (s.register k c).Callable key ↔ key = k ∨ s.Callable key := by
      intro key
      by_cases hk : key = k
      · simp only [State.Callable, State.register, hk, Function.update_self, true_or, iff_true]
        rintro c' ⟨⟩ h hh
        exact hc h hh
      · simp only [State.Callable, State.register, hk, false_or, Function.update_of_ne hk]
    rw [hfactory]
    simp only [State.register, List.any_cons]
    congr 1
    rw [Bool.or_assoc]
    congr 1
    cases hk : decide (s.Callable k) with
    | false => simp
    | true =>
      simp only [Bool.not_true, Bool.false_or]
      congr 1
      funext key
      congr 1
      rw [decide_eq_decide]
      refine (hcallable key).trans ⟨fun hor => hor.elim (fun he => ?_) id, .inr⟩
      exact he ▸ of_decide_eq_true hk

theorem toOption_eq_some {x : Except String State} (h : x.toOption = some s') : x = .ok s' := by
  cases x with
  | error e => cases h
  | ok s => exact congrArg Except.ok (Option.some.inj h)

/-- What a step has found, and what it does. -/
inductive Step (libs : Libraries) (s : State) : Event → State → Prop where
  | opened {fileName : String} {found : Option ℕ} {l : Loader}
      (hl : s.toLoader.load fileName found = .ok (l, none)) :
    Step libs s (.opened fileName found) { s with toLoader := l }
  | mapped {fileName : String} {found : Option ℕ} {l : Loader} {h : Handle}
      (hl : s.toLoader.load fileName found = .ok (l, some h)) :
    Step libs s (.opened fileName found) (({ s with toLoader := l } : State).soMain libs h)
  | closed {fileName : String} {h : Handle} (hm : s.dllMap.lookup fileName = some h) :
    Step libs s (.closed fileName)
      { s.dlclose libs h with dllMap := s.dllMap.erase fileName }
  | register {key : ℤ} {creator : Creator} (hlive : ∀ h ∈ creator.owner, s.Mapped h) :
    Step libs s (.register key creator) (s.register key creator)
  | create {key : ℤ} {c : Creator} (hc : s.factory key = some c) :
    Step libs s (.create key) { s with misused := s.misused || !decide (s.Callable key) }

theorem unload_cases (hst : s.unload libs fileName = .ok s') :
    ∃ h, s.dllMap.lookup fileName = some h ∧
      s' = { s.dlclose libs h with dllMap := s.dllMap.erase fileName } := by
  unfold State.unload at hst
  split at hst
  · cases hst
  · next h hm =>
    exact ⟨h, hm, (Except.ok.inj hst).symm⟩

theorem load_step {found : Option ℕ} (hst : s.load libs fileName found = .ok s') :
    Step libs s (.opened fileName found) s' := by
  unfold State.load at hst
  split at hst
  · cases hst
  · next l hl => exact Except.ok.inj hst ▸ .opened hl
  · next l h hl => exact Except.ok.inj hst ▸ .mapped hl

theorem step_cases {e : Event} (hst : step libs s e = some s') : Step libs s e s' := by
  cases e with
  | opened fileName found => exact load_step (toOption_eq_some hst)
  | closed fileName =>
    obtain ⟨h, hm, rfl⟩ := unload_cases (toOption_eq_some hst)
    exact .closed hm
  | register key creator =>
    obtain ⟨hlive, rfl⟩ := Option.ite_some_none_eq_some.mp hst
    exact .register hlive
  | create key =>
    have hst := toOption_eq_some hst
    unfold State.create at hst
    split at hst
    · cases hst
    · next c hc => exact Except.ok.inj hst ▸ .create hc

/-- The constructor of a library that has just been mapped. -/
theorem soMain_eq (hmapped : s.Mapped h) :
    s.soMain libs h =
      { s with
        factory := fun key => if key ∈ libs.keys h.lib then some ⟨some h, 0⟩ else s.factory key
        replaced := Function.update s.replaced h
          ((libs.keys h.lib).map fun key => (key, s.factory key))
        misused := s.misused || (libs.keys h.lib).any fun key => !decide (s.Callable key) } := by
  rw [State.soMain, foldl_register]
  rintro h' ⟨⟩
  exact hmapped

theorem step_sound {e : Event} (hst : step libs s e = some s') (hs : Sound libs s.toLoader) :
    Sound libs s'.toLoader := by
  cases step_cases hst with
  | opened hl => exact hs.loads (load_cases hl)
  | mapped hl =>
    rw [soMain_eq (mapped_of_load hl)]
    exact hs.loads (load_cases hl)
  | closed hm => exact hs.unload hm
  | register => exact hs
  | create => exact hs

theorem Safe.callable (h : Safe s) (hs : Sound libs s.toLoader) (key : ℤ) : s.Callable key :=
  fun c hc h' howner => hs.mapped (h.creators_loaded key c h' hc howner)

/-- What could be called before an opening can be called after it. -/
theorem Safe.callable_loads (h : Safe s) (hs : Sound libs s.toLoader) {found : Option ℕ}
    {new : Option Handle} (hl : Loads s.toLoader fileName found l new) (key : ℤ) :
    ({ s with toLoader := l } : State).Callable key := by
  intro c hc h' howner
  have hloaded := h.creators_loaded key c h' hc howner
  refine (hs.loads hl).mapped ?_
  cases hl with
  | known => exact hloaded
  | again lib hnew hmapped => exact hloaded.insert hnew
  | maps lib hnew hmapped => exact hloaded.insert hnew

theorem Safe.loads (h : Safe s) {found : Option ℕ} {new : Option Handle}
    (hl : Loads s.toLoader fileName found l new) : Safe { s with toLoader := l } := by
  refine ⟨fun key c h' hkey howner => ?_, h.not_misused, h.restored⟩
  have hloaded := h.creators_loaded key c h' hkey howner
  cases hl with
  | known => exact hloaded
  | again lib hnew hmapped => exact hloaded.insert hnew
  | maps lib hnew hmapped => exact hloaded.insert hnew

theorem Safe.soMain (h' : Safe s) (hs : Sound libs s.toLoader) {found : Option ℕ}
    (hl : Loads s.toLoader fileName found l (some h)) (hmapped : l.Mapped h) :
    Safe (({ s with toLoader := l } : State).soMain libs h) := by
  rw [soMain_eq hmapped]
  constructor
  case creators_loaded =>
    intro key c h₂ hkey howner
    change (if key ∈ libs.keys h.lib then some (⟨some h, 0⟩ : Creator) else s.factory key) =
      some c at hkey
    split_ifs at hkey with hmem
    · obtain rfl := Option.some.inj hkey
      obtain rfl := Option.some.inj howner
      cases hl with
      | maps lib hnew hun => exact ⟨fileName, lookup_insert_eq_some.mpr (.inl ⟨rfl, rfl⟩)⟩
    · exact (h'.loads hl).creators_loaded key c h₂ hkey howner
  case not_misused =>
    have hany : (libs.keys h.lib).any (fun key =>
        !decide (({ s with toLoader := l } : State).Callable key)) = false := by
      simp [h'.callable_loads hs hl]
    rw [hany, h'.not_misused]
    rfl
  case restored => exact h'.restored

theorem safe_unload_iff (hs : Sound libs s.toLoader) (h' : Safe s)
    (hm : s.dllMap.lookup fileName = some h) :
    Safe { s.dlclose libs h with dllMap := s.dllMap.erase fileName } ↔
      Vacated s (.closed fileName) := by
  constructor
  · intro hsafe h₂ hm₂ hrefs
    obtain rfl := Option.some.inj (hm.symm.trans hm₂)
    constructor
    · intro key c hkey howner
      obtain ⟨other, hother⟩ := hsafe.creators_loaded key c h hkey howner
      exact hs.not_loaded_erase hm hrefs other hother
    · have hrestored := hsafe.restored
      simp only [State.dlclose, Bool.or_eq_false_iff, decide_eq_false_iff_not] at hrestored
      by_contra hnot
      exact hrestored.2 ⟨hrefs, hnot⟩
  · intro hvacated
    constructor
    case creators_loaded =>
      intro key c h₂ hkey howner
      apply hs.loaded_of_closed hm (h'.creators_loaded key c h₂ hkey howner)
      by_cases hrefs : s.refs h.lib = 1
      · refine .inl fun heq => ?_
        exact (hvacated h hm hrefs).1 key c hkey (heq ▸ howner)
      · exact .inr hrefs
    case not_misused => exact h'.not_misused
    case restored =>
      simp only [State.dlclose, h'.restored, Bool.false_or, decide_eq_false_iff_not]
      rintro ⟨hrefs, hnot⟩
      exact hnot (hvacated h hm hrefs).2

/-- A step from a safe state leads to a safe one exactly if it gives back no last handle of a
library that is still in the factory. -/
theorem step_safe_iff {e : Event} (hst : step libs s e = some s') (hs : Sound libs s.toLoader)
    (h : Safe s) : Safe s' ↔ Vacated s e := by
  cases step_cases hst with
  | opened hl => exact iff_of_true (h.loads (load_cases hl)) trivial
  | mapped hl =>
    exact iff_of_true (h.soMain hs (load_cases hl) (mapped_of_load hl)) trivial
  | closed hm => exact safe_unload_iff hs h hm
  | @register key creator hlive =>
    constructor
    · intro h' owner howner
      exact h'.creators_loaded key creator owner (Function.update_self ..) howner
    · intro hloaded
      refine ⟨fun key' c h' hkey howner => ?_, ?_, h.restored⟩
      · rcases update_some_eq_some.mp hkey with ⟨-, rfl⟩ | ⟨-, hold⟩
        · exact hloaded h' howner
        · exact h.creators_loaded key' c h' hold howner
      · simp [State.register, h.not_misused, h.callable hs key]
  | @create key c hc =>
    refine iff_of_true ⟨h.creators_loaded, ?_, h.restored⟩ trivial
    simp [h.not_misused, h.callable hs key]

theorem init_safe : Safe State.init where
  creators_loaded key c h hkey := by cases hkey
  not_misused := rfl
  restored := rfl

end Step

/-! ### The constructor of a new mapping -/

/-- No creator is of a mapping that is still to come. -/
def Aged (s : State) : Prop :=
  ∀ (key : ℤ) (c : Creator) (h : Handle), s.factory key = some c → c.owner = some h →
    h.generation ≤ s.generations h.lib

section Constructor
variable {libs : Libraries} {s s' : State} {fileName : String} {found : Option ℕ}

theorem init_aged : Aged State.init := by
  intro key c h hkey
  cases hkey

theorem Aged.load (ha : Aged s) (hst : s.load libs fileName found = .ok s') : Aged s' := by
  intro key c h hkey howner
  cases load_step hst with
  | opened hl => exact Nat.le_trans (ha key c h hkey howner) (generations_load (load_cases hl) _)
  | @mapped _ _ l h' hl =>
    rw [soMain_eq (mapped_of_load hl)] at hkey ⊢
    change (if key ∈ libs.keys h'.lib then some (⟨some h', 0⟩ : Creator) else s.factory key) =
      some c at hkey
    split_ifs at hkey with hmem
    · obtain rfl := Option.some.inj hkey
      obtain rfl := Option.some.inj howner
      exact Nat.le_of_eq (mapped_of_load hl).2.symm
    · exact Nat.le_trans (ha key c h hkey howner) (generations_load (load_cases hl) _)

theorem Aged.unload (ha : Aged s) (hst : s.unload libs fileName = .ok s') : Aged s' := by
  obtain ⟨h, hm, rfl⟩ := unload_cases hst
  exact ha

theorem mem_load (hst : s.load libs fileName found = .ok s') (other : String) :
    other ∈ s'.dllMap ↔ other = fileName ∨ other ∈ s.dllMap := by
  cases load_step hst with
  | opened hl => exact Loader.mem_load hl other
  | mapped hl =>
    rw [soMain_eq (mapped_of_load hl)]
    exact Loader.mem_load hl other

theorem load_eq_error :
    (∃ what, s.load libs fileName found = .error what) ↔ fileName ∉ s.dllMap ∧ found = none := by
  rw [← Loader.load_eq_error, State.load]
  split
  · next what hl => simp [hl]
  · next l hl => simp [hl]
  · next l h hl => simp [hl]

theorem mem_unload (hst : s.unload libs fileName = .ok s') (other : String) :
    other ∈ s'.dllMap ↔ other ≠ fileName ∧ other ∈ s.dllMap := by
  obtain ⟨h, hm, rfl⟩ := unload_cases hst
  exact AList.mem_erase

theorem unload_eq_error :
    (∃ what, s.unload libs fileName = .error what) ↔ fileName ∉ s.dllMap := by
  rw [← AList.lookup_eq_none, State.unload]
  split
  · next hm => simp [hm]
  · next h hm => simp [hm]

theorem unload_misused (hst : s.unload libs fileName = .ok s') : s'.misused = s.misused := by
  obtain ⟨h, hm, rfl⟩ := unload_cases hst
  rfl

/-- An opening calls a library that is gone exactly if it maps one whose constructor
overwrites a function of such a library. -/
theorem load_misused_iff (ha : Aged s) (hgood : s.misused = false)
    (hst : s.load libs fileName found = .ok s') :
    s'.misused = true ↔ fileName ∉ s.dllMap ∧ ∃ lib, found = some lib ∧ s.mapped lib = false ∧
      ∃ key ∈ libs.keys lib, ¬ s.Callable key := by
  cases load_step hst with
  | opened hl =>
    refine iff_of_false (by simp [hgood]) ?_
    rintro ⟨hnew, lib, rfl, hun, -⟩
    simp [Loader.load, hnew, hun] at hl
  | @mapped _ _ l h hl =>
    rw [soMain_eq (mapped_of_load hl)]
    cases load_cases hl with
    | maps lib hnew hun =>
      -- mapping the library brings back no function that was gone
      have hcall : ∀ key, ({ s with
            refs := Function.update s.refs lib (s.refs lib + 1)
            generations := Function.update s.generations lib (s.generations lib + 1)
            mapped := Function.update s.mapped lib true
            dllMap := s.dllMap.insert fileName ⟨lib, s.generations lib + 1⟩ } : State).Callable
          key ↔ s.Callable key := by
        intro key
        refine forall_congr' fun c => forall_congr' fun hc => forall_congr' fun h =>
          forall_congr' fun howner => ?_
        have hle := ha key c h hc howner
        by_cases hlib : h.lib = lib
        · have hne : s.generations lib + 1 ≠ h.generation := by
            rw [← hlib]
            omega
          simp [Loader.Mapped, hlib, hun, hne]
        · simp [Loader.Mapped, hlib]
      simp only [hgood, Bool.false_or, List.any_eq_true, Bool.not_eq_true', decide_eq_false_iff_not,
        hnew, not_false_eq_true, true_and, Option.some.injEq, exists_eq_left', hun]
      exact exists_congr fun key => and_congr_right fun _ => not_congr (hcall key)

end Constructor

/-! ### What the events so far tell -/

/-- What an event does to the loader, which does not look at the factory. -/
def Loader.after (libs : Libraries) (l : Loader) : Event → Loader
  | .opened fileName found =>
    match l.load fileName found with
    | .ok (l', _) => l'
    | .error _ => l
  | .closed fileName =>
    match l.unload libs fileName with
    | .ok l' => l'
    | .error _ => l
  | _ => l

def loaderAfter (libs : Libraries) (calls : List Event) : Loader :=
  calls.foldl (Loader.after libs) .init

/-- The mapping that an event makes. -/
def Loader.maps (l : Loader) : Event → Option Handle
  | .opened fileName found =>
    match l.load fileName found with
    | .ok (_, new) => new
    | .error _ => none
  | _ => none

/-- What an event registers under a key: a call of `Register` its creator, an opening that maps
a library the function of that library. -/
def registers (libs : Libraries) (l : Loader) (key : ℤ) : Event → Option Creator
  | .register key' creator => if key = key' then some creator else none
  | e => (l.maps e).bind fun h => if key ∈ libs.keys h.lib then some ⟨some h, 0⟩ else none

/-- The last that was registered under a key. -/
def LastRegistered (libs : Libraries) (calls : List Event) (key : ℤ) (c : Creator) : Prop :=
  ∃ before e after, calls = before ++ e :: after ∧
    registers libs (loaderAfter libs before) key e = some c ∧
    ∀ pre e' post, after = pre ++ e' :: post →
      registers libs (loaderAfter libs (before ++ e :: pre)) key e' = none

/-- These events came before the opening that made a mapping. -/
def OpenedAfter (libs : Libraries) (calls : List Event) (h : Handle) (before : List Event) : Prop :=
  ∃ e after, calls = before ++ e :: after ∧ (loaderAfter libs before).maps e = some h

/-- When the last handle of a library is given back, no key was last registered with a function
of it, and each of its own keys was last registered with what it was last registered with
before the library came. What is registered is of a library that the loader has. -/
def Reregistered (libs : Libraries) (calls : List Event) : Event → Prop
  | .closed fileName => ∀ h, (loaderAfter libs calls).dllMap.lookup fileName = some h →
    (loaderAfter libs calls).refs h.lib = 1 →
    (∀ key c, LastRegistered libs calls key c → c.owner ≠ some h) ∧
    ∀ before, OpenedAfter libs calls h before → ∀ key ∈ libs.keys h.lib,
      ∃ c, LastRegistered libs before key c ∧ LastRegistered libs calls key c
  | .register _ creator => ∀ h ∈ creator.owner, (loaderAfter libs calls).Loaded h
  | _ => True

section History
variable {libs : Libraries} {calls before : List Event} {e : Event} {s s' : State} {l : Loader}
  {key : ℤ} {c : Creator} {h : Handle}

theorem loaderAfter_concat :
    loaderAfter libs (calls ++ [e]) = (loaderAfter libs calls).after libs e := by
  rw [loaderAfter, List.foldl_append]
  rfl

theorem lastRegistered_concat :
    LastRegistered libs (calls ++ [e]) key c ↔
      registers libs (loaderAfter libs calls) key e = some c ∨
        registers libs (loaderAfter libs calls) key e = none ∧
          LastRegistered libs calls key c := by
  constructor
  · rintro ⟨before, e', after, heq, hreg, hnone⟩
    rcases List.eq_nil_or_concat after with rfl | ⟨after, e'', rfl⟩
    · obtain ⟨rfl, he⟩ := List.append_inj' heq rfl
      obtain rfl := List.singleton_inj.mp he
      exact .inl hreg
    · rw [List.concat_eq_append, ← List.cons_append, ← List.append_assoc] at heq
      obtain ⟨rfl, he⟩ := List.append_inj' heq rfl
      obtain rfl := List.singleton_inj.mp he
      refine .inr ⟨hnone after e [] (by simp), before, e', after, rfl, hreg, ?_⟩
      rintro pre x post rfl
      exact hnone pre x (post ++ [e]) (by simp)
  · rintro (hreg | ⟨hnot, before, e', after, rfl, hreg, hnone⟩)
    · exact ⟨calls, e, [], rfl, hreg, by simp⟩
    · refine ⟨before, e', after ++ [e], by simp, hreg, fun pre x post heq => ?_⟩
      rcases List.eq_nil_or_concat post with rfl | ⟨post, y, rfl⟩
      · obtain ⟨rfl, he⟩ := List.append_inj' heq rfl
        obtain rfl := List.singleton_inj.mp he
        exact hnot
      · rw [List.concat_eq_append, ← List.cons_append, ← List.append_assoc] at heq
        exact hnone pre x post (List.append_inj' heq rfl).1

theorem openedAfter_concat :
    OpenedAfter libs (calls ++ [e]) h before ↔
      before = calls ∧ (loaderAfter libs calls).maps e = some h ∨
        OpenedAfter libs calls h before := by
  constructor
  · rintro ⟨e', after, heq, hmaps⟩
    rcases List.eq_nil_or_concat after with rfl | ⟨after, e'', rfl⟩
    · obtain ⟨rfl, he⟩ := List.append_inj' heq rfl
      obtain rfl := List.singleton_inj.mp he
      exact .inl ⟨rfl, hmaps⟩
    · rw [List.concat_eq_append, ← List.cons_append, ← List.append_assoc] at heq
      exact .inr ⟨e', after, (List.append_inj' heq rfl).1, hmaps⟩
  · rintro (⟨rfl, hmaps⟩ | ⟨e', after, rfl, hmaps⟩)
    · exact ⟨e, [], rfl, hmaps⟩
    · exact ⟨e', after ++ [e], by simp, hmaps⟩

theorem step_loader (hst : step libs s e = some s') : s'.toLoader = s.toLoader.after libs e := by
  cases step_cases hst with
  | opened hl => simp [Loader.after, hl]
  | mapped hl =>
    rw [soMain_eq (mapped_of_load hl)]
    simp [Loader.after, hl]
  | closed hm =>
    rw [Loader.after, unload_eq hm]
    rfl
  | register | create => rfl

theorem step_factory (hst : step libs s e = some s') :
    s'.factory key = (registers libs s.toLoader key e).or (s.factory key) := by
  cases step_cases hst with
  | opened hl => simp [registers, Loader.maps, hl]
  | @mapped fileName found l h hl =>
    rw [soMain_eq (mapped_of_load hl)]
    by_cases hkey : key ∈ libs.keys h.lib
    · simp [registers, Loader.maps, hl, hkey]
    · simp [registers, Loader.maps, hl, hkey]
  | @register key' creator =>
    by_cases hkey : key = key'
    · simp [State.register, registers, hkey]
    · simp [State.register, registers, hkey]
  | closed | create => simp [registers, Loader.maps, State.dlclose]

theorem step_replaced (hst : step libs s e = some s') :
    s'.replaced h =
      if s.toLoader.maps e = some h then
        (libs.keys h.lib).map fun key => (key, s.factory key)
      else s.replaced h := by
  cases step_cases hst with
  | opened hl => simp [Loader.maps, hl]
  | @mapped fileName found l h' hl =>
    rw [soMain_eq (mapped_of_load hl)]
    by_cases hh : h = h'
    · simp [Loader.maps, hl, hh]
    · simp [Loader.maps, hl, hh, Ne.symm hh]
  | closed | register | create => simp [Loader.maps, State.dlclose, State.register]

/-- A mapping is new after an event, or was there. -/
theorem mapped_after (hmapped : (l.after libs e).Mapped h) : l.Mapped h ∨ l.maps e = some h := by
  cases e with
  | register | create => exact .inl hmapped
  | closed fileName =>
    rw [Loader.after, Loader.unload] at hmapped
    cases hm : l.dllMap.lookup fileName with
    | none =>
      rw [hm] at hmapped
      exact .inl hmapped
    | some h' =>
      simp only [hm, Loader.Mapped] at hmapped
      refine .inl ⟨?_, hmapped.2⟩
      have hleft := hmapped.1
      rw [dlclose_mapped] at hleft
      split_ifs at hleft
      exact hleft
  | opened fileName found =>
    cases hl : l.load fileName found with
    | error what => simpa [Loader.after, Loader.maps, hl] using hmapped
    | ok r =>
      obtain ⟨l', new⟩ := r
      simp only [Loader.after, hl] at hmapped
      simp only [Loader.maps, hl]
      cases load_cases hl with
      | known => exact .inl hmapped
      | again => exact .inl hmapped
      | maps lib hnew hun =>
        obtain ⟨hm, hgen⟩ := hmapped
        by_cases hlib : h.lib = lib
        · rw [hlib] at hgen
          simp only [Function.update_self] at hgen
          exact .inr (congrArg some (Handle.ext hlib.symm hgen))
        · simp only [Function.update_of_ne hlib] at hm hgen
          exact .inl ⟨hm, hgen⟩

theorem generations_after (lib : ℕ) : l.generations lib ≤ (l.after libs e).generations lib := by
  cases e with
  | register | create => exact Nat.le_refl _
  | closed fileName =>
    rw [Loader.after, Loader.unload]
    cases l.dllMap.lookup fileName <;> exact Nat.le_refl _
  | opened fileName found =>
    cases hl : l.load fileName found with
    | error what => simp [Loader.after, hl]
    | ok r =>
      simp only [Loader.after, hl]
      exact generations_load (load_cases hl) lib

/-- Only an opening makes a mapping. -/
theorem load_of_maps (hmaps : l.maps e = some h) :
    ∃ fileName found l', e = .opened fileName found ∧
      l.load fileName found = .ok (l', some h) := by
  cases e with
  | register | create | closed => cases hmaps
  | opened fileName found =>
    cases hl : l.load fileName found with
    | error what => simp [Loader.maps, hl] at hmaps
    | ok r =>
      obtain ⟨l', new⟩ := r
      simp only [Loader.maps, hl] at hmaps
      exact ⟨fileName, found, l', rfl, hmaps ▸ hl⟩

/-- A new mapping is younger than all before. -/
theorem generation_of_maps (hmaps : l.maps e = some h) :
    h.generation = l.generations h.lib + 1 := by
  obtain ⟨fileName, found, l', -, hl⟩ := load_of_maps hmaps
  cases load_cases hl with
  | maps lib hnew hun => rfl

theorem generation_after (hmaps : l.maps e = some h) :
    h.generation = (l.after libs e).generations h.lib := by
  obtain ⟨fileName, found, l', rfl, hl⟩ := load_of_maps hmaps
  simp only [Loader.after, hl]
  cases load_cases hl with
  | maps lib hnew hun => simp

/-- What the constructor of a library has found, and what is left of it. -/
structure Found (libs : Libraries) (s : State) (h : Handle) (before : List Event) : Prop where
  replaced_eq : ∃ old : ℤ → Option Creator,
    s.replaced h = ((libs.keys h.lib).map fun key => (key, old key)) ∧
      ∀ key c, old key = some c ↔ LastRegistered libs before key c
  has_key : ∀ key ∈ libs.keys h.lib, (s.factory key).isSome
  generation_le : h.generation ≤ s.generations h.lib

/-- The loader and the factory are what the events so far have made of them. -/
structure Tracks (libs : Libraries) (calls : List Event) (s : State) : Prop where
  sound : Sound libs s.toLoader
  loader_eq : s.toLoader = loaderAfter libs calls
  factory_iff : ∀ key c, s.factory key = some c ↔ LastRegistered libs calls key c
  opened : ∀ h, s.Mapped h → ∃ before, OpenedAfter libs calls h before
  found : ∀ h before, OpenedAfter libs calls h before → Found libs s h before

theorem Tracks.init : Tracks libs [] State.init where
  sound := init_sound libs
  loader_eq := rfl
  factory_iff key c := by simp [State.init, LastRegistered]
  opened h hmapped := absurd hmapped.1 Bool.false_ne_true
  found h before := by simp [OpenedAfter]

theorem Found.step (hf : Found libs s h before) (hst : step libs s e = some s') :
    Found libs s' h before where
  replaced_eq := by
    rw [step_replaced hst, if_neg]
    · exact hf.replaced_eq
    · intro hmaps
      have hgen := generation_of_maps hmaps
      have hle := hf.generation_le
      omega
  has_key key hkey := by
    rw [step_factory hst, Option.isSome_or, hf.has_key key hkey, Bool.or_true]
  generation_le := by
    rw [step_loader hst]
    exact Nat.le_trans hf.generation_le (generations_after _)

theorem Tracks.step (ht : Tracks libs calls s) (hst : step libs s e = some s') :
    Tracks libs (calls ++ [e]) s' where
  sound := step_sound hst ht.sound
  loader_eq := by rw [step_loader hst, ht.loader_eq, loaderAfter_concat]
  factory_iff key c := by
    rw [step_factory hst, Option.or_eq_some_iff, lastRegistered_concat, ← ht.loader_eq,
      ht.factory_iff]
  opened h hmapped := by
    rw [step_loader hst] at hmapped
    rcases mapped_after hmapped with hold | hmaps
    · obtain ⟨before, hopened⟩ := ht.opened h hold
      exact ⟨before, openedAfter_concat.mpr (.inr hopened)⟩
    · exact ⟨calls, openedAfter_concat.mpr (.inl ⟨rfl, ht.loader_eq ▸ hmaps⟩)⟩
  found h before hopened := by
    rcases openedAfter_concat.mp hopened with ⟨rfl, hmaps⟩ | hold
    · rw [← ht.loader_eq] at hmaps
      constructor
      case replaced_eq =>
        refine ⟨s.factory, ?_, ht.factory_iff⟩
        rw [step_replaced hst, if_pos hmaps]
      case has_key =>
        intro key hkey
        rw [step_factory hst]
        cases e with
        | opened fileName found => simp [registers, hmaps, hkey]
        | _ => cases hmaps
      case generation_le =>
        rw [step_loader hst]
        exact Nat.le_of_eq (generation_after hmaps)
    · exact (ht.found h before hold).step hst

/-- The keys of a library are restored exactly if they were registered again. -/
theorem Tracks.restored_iff (ht : Tracks libs calls s) (hmapped : s.Mapped h) :
    s.Restored h ↔ ∀ before, OpenedAfter libs calls h before → ∀ key ∈ libs.keys h.lib,
      ∃ c, LastRegistered libs before key c ∧ LastRegistered libs calls key c := by
  constructor
  · intro hrestored before hopened key hkey
    have hf := ht.found h before hopened
    obtain ⟨old, hreplaced, hold⟩ := hf.replaced_eq
    obtain ⟨c, hc⟩ := Option.isSome_iff_exists.mp (hf.has_key key hkey)
    have hp := hrestored (key, old key) (by rw [hreplaced]; exact List.mem_map_of_mem hkey)
    simp only [hc, reduceCtorEq, or_false] at hp
    exact ⟨c, (hold key c).mp hp.symm, (ht.factory_iff key c).mp hc⟩
  · intro hagain p hp
    obtain ⟨before, hopened⟩ := ht.opened h hmapped
    obtain ⟨old, hreplaced, hold⟩ := (ht.found h before hopened).replaced_eq
    rw [hreplaced] at hp
    obtain ⟨key, hkey, rfl⟩ := List.mem_map.mp hp
    obtain ⟨c, hbefore, hnow⟩ := hagain before hopened key hkey
    exact .inl (((ht.factory_iff key c).mpr hnow).trans ((hold key c).mpr hbefore).symm)

/-- On the state, the condition on the events is the one on the factory. -/
theorem Tracks.vacated_iff (ht : Tracks libs calls s) :
    Vacated s e ↔ Reregistered libs calls e := by
  cases e with
  | opened | create => exact Iff.rfl
  | register key creator => rw [Vacated, Reregistered, ht.loader_eq]
  | closed fileName =>
    simp only [Vacated, Reregistered, ← ht.loader_eq, ht.factory_iff]
    refine forall_congr' fun h => forall_congr' fun hm => forall_congr' fun _ => ?_
    rw [ht.restored_iff (ht.sound.mapped ⟨fileName, hm⟩)]

end History

/-- Whatever is opened, closed, registered and created in whatever order: no creator outlives
its library and its keys are restored, if and only if whenever the last handle of a library
is given back, its keys were registered again as before and nothing else is of it. -/
theorem plugins_safe_iff (libs : Libraries) (es : List Event) :
    Always (step libs) Safe es State.init ↔
      ObeysAfter (step libs) (Reregistered libs) [] es State.init :=
  always_iff_obeysAfter (I := Tracks libs) (fun _ _ _ _ hst ht _ => ht.step hst)
    (fun _ _ _ _ hst ht hs => (step_safe_iff hst ht.sound hs).trans ht.vacated_iff)
    Tracks.init init_safe

/-- The plugin for key 0 comes and goes, then a command with that key is made. -/
def readPluginGoes : List Event :=
  [.register 0 ⟨none, 1⟩, .opened "plugins/read.so" (some 7), .closed "plugins/read.so", .create 0]

theorem plugins_misused :
    (run (step ⟨fun _ => [0], fun _ => true⟩) (fun _ _ => True) readPluginGoes State.init).map
        (fun s => (s.factory 0, s.misused)) = some (some ⟨some ⟨7, 1⟩, 0⟩, true) ∧
      ¬ Always (step ⟨fun _ => [0], fun _ => true⟩) Safe readPluginGoes State.init := by
  have hrun : (run (step ⟨fun _ => [0], fun _ => true⟩) (fun _ _ => True) readPluginGoes
      State.init).map (fun s => (s.factory 0, s.misused)) =
        some (some ⟨some ⟨7, 1⟩, 0⟩, true) := by decide
  refine ⟨hrun, fun h => ?_⟩
  obtain ⟨s, hs, hvalue⟩ := Option.map_eq_some_iff.mp hrun
  have hgood := (h.run hs).not_misused
  rw [(Prod.mk.inj hvalue).2] at hgood
  cases hgood

/-! ### The end of the loader -/

/-- In every run the handles that are out are as many as the file names that lead to them; the
destructor gives each back once, while it is out, and unmaps every library that does not ask
to stay. -/
theorem loader_closes_all (libs : Libraries) (es : List Event) (s : State)
    (hrun : run (step libs) (fun _ _ => True) es State.init = some s) (lib : ℕ) :
    (s.refs lib = s.dllMap.entries.countP fun e => e.2.lib = lib) ∧
      (∀ front e back, s.dllMap.entries = front ++ e :: back →
        0 < (s.toLoader.closeAll libs front).refs e.2.lib) ∧
      (s.toLoader.destroy libs).refs lib = 0 ∧
      (s.toLoader.destroy libs).mapped lib = (s.mapped lib && !libs.unmaps lib) := by
  have hs : Sound libs s.toLoader :=
    run_invariant (P := fun s : State => Sound libs s.toLoader)
      (fun _ _ _ _ hst h => step_sound hst h) hrun (init_sound libs)
  exact ⟨hs.refs_eq lib, hs.destroy⟩

/-- One library under two names. -/
def linkedTwice : List Event :=
  [.opened "plugins/read.so" (some 7), .opened "plugins/link.so" (some 7)]

theorem loader_closes_all_linkedTwice :
    ∃ s, run (step ⟨fun _ => [0], fun _ => true⟩) (fun _ _ => True) linkedTwice State.init =
        some s ∧ s.refs 7 = 2 ∧ (s.toLoader.destroy ⟨fun _ => [0], fun _ => true⟩).refs 7 = 0 := by
  have hrun : (run (step ⟨fun _ => [0], fun _ => true⟩) (fun _ _ => True) linkedTwice
      State.init).map (fun s => s.refs 7) = some 2 := by decide
  obtain ⟨s, hs, hrefs⟩ := Option.map_eq_some_iff.mp hrun
  exact ⟨s, hs, hrefs,
    (loader_closes_all ⟨fun _ => [0], fun _ => true⟩ linkedTwice s hs 7).2.2.1⟩

end IoTDrive.Framework.Plugins
