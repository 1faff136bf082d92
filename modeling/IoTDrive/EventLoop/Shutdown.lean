import IoTDrive.EventLoop.Rounds
import IoTDrive.Lib.Transition
import Mathlib.Tactic.Cases

/-! The receive thread of the minion manager and the manager's destructor. `Init` registers a
handler for each minion and starts a thread that runs the event loop; the destructor calls
`Stop`, and then the thread, the last member, is joined. `Stop` only clears the flag that
the loop tests between two rounds: it does not wake the listener, and `Run` sets the flag
when it begins. The handlers leave the reactor alone. -/

namespace IoTDrive.EventLoop.Shutdown

open Lib

/-- Where the thread of `m_worker` stands. -/
inductive Worker where
  | absent
  | starts
  | tests
  | listens (fdList : List Key)
  | serves (selectedFds : List Key)
  | ended
  deriving DecidableEq

/-- Where the owner of the manager stands. -/
inductive Owner where
  | alive
  | joins
  | gone
  deriving DecidableEq

/-- `MinionManager`, as far as its thread is concerned; a minion is known by its number. -/
structure State where
  reactor : Reactor ℕ
  worker : Worker
  owner : Owner
  /-- An exception has left the thread. -/
  terminated : Bool

def State.init : State where
  reactor := ⟨∅, false, []⟩
  worker := .absent
  owner := .alive
  terminated := false

inductive Event where
  /-- `Init`, with the descriptors of the minions. -/
  | init (fds : List ℕ)
  /-- The thread goes on; if it is in `Listen`, with what `select` finds. -/
  | worker (found : Option Readiness)
  /-- The handler whose turn it is throws. -/
  | throw
  /-- `~MinionManager`, up to the join. -/
  | destroy
  | join

/-- The loop of `Init` over the minions. -/
def registerAll (r : Reactor ℕ) (fds : List ℕ) : Reactor ℕ :=
  fds.zipIdx.foldl (fun r minion => r.register (minion.1, .read) minion.2) r

/-- The thread: `Run`. -/
def State.work (s : State) (found : Option Readiness) : Option State :=
  match s.worker with
  | .absent | .ended => none
  | .starts => some { s with reactor := { s.reactor with running := true }, worker := .tests }
  | .tests =>
    if s.reactor.running then some { s with worker := .listens s.reactor.listenFuncs.keys }
    else some { s with worker := .ended }
  | .listens fdList =>
    match listen found fdList with
    | .error _ => some { s with terminated := true }
    | .ok selectedFds => some { s with worker := .serves selectedFds }
  | .serves [] => some { s with worker := .tests }
  | .serves (key :: keys) =>
    match s.reactor.listenFuncs.lookup key with
    | none => some { s with terminated := true }
    | some _ => some { s with reactor := s.reactor.handle key [], worker := .serves keys }

def step (s : State) (e : Event) : Option State :=
  if s.terminated then none
  else match e with
    | .init fds =>
      if s.owner = .alive ∧ s.worker = .absent then
        some { s with reactor := registerAll s.reactor fds, worker := .starts }
      else none
    | .worker found => s.work found
    | .throw =>
      match s.worker with
      | .serves (key :: _) =>
        if key ∈ s.reactor.listenFuncs then some { s with terminated := true } else none
      | _ => none
    | .destroy =>
      if s.owner = .alive then some { s with reactor := s.reactor.stop, owner := .joins } else none
    | .join =>
      if s.owner = .joins ∧ (s.worker = .absent ∨ s.worker = .ended) then
        some { s with owner := .gone }
      else none

/-- The destructor does not come between the start of the thread and its first store. -/
def InTime (s : State) : Event → Prop
  | .destroy => s.worker ≠ .starts
  | _ => True

instance (s : State) (e : Event) : Decidable (InTime s e) := by
  cases e <;> unfold InTime <;> infer_instance

/-! ### What a step can do -/

/-- The steps of the thread. -/
inductive Works (s : State) (found : Option Readiness) : State → Prop
  | starts (hw : s.worker = .starts) :
      Works s found { s with reactor := { s.reactor with running := true }, worker := .tests }
  | goesOn (hw : s.worker = .tests) (hr : s.reactor.running = true) :
      Works s found { s with worker := .listens s.reactor.listenFuncs.keys }
  | ends (hw : s.worker = .tests) (hr : s.reactor.running = false) :
      Works s found { s with worker := .ended }
  | fails {fdList : List Key} {what : String} (hw : s.worker = .listens fdList)
      (hl : listen found fdList = .error what) : Works s found { s with terminated := true }
  | finds {fdList selectedFds : List Key} (hw : s.worker = .listens fdList)
      (hl : listen found fdList = .ok selectedFds) :
      Works s found { s with worker := .serves selectedFds }
  | served (hw : s.worker = .serves []) : Works s found { s with worker := .tests }
  | misses {key : Key} {keys : List Key} (hw : s.worker = .serves (key :: keys))
      (hl : s.reactor.listenFuncs.lookup key = none) : Works s found { s with terminated := true }
  | calls {key : Key} {keys : List Key} {minion : ℕ} (hw : s.worker = .serves (key :: keys))
      (hl : s.reactor.listenFuncs.lookup key = some minion) :
      Works s found { s with reactor := s.reactor.handle key [], worker := .serves keys }

theorem works_of {s s' : State} {found : Option Readiness} (h : s.work found = some s') :
    Works s found s' := by
  unfold State.work at h
  split at h
  · cases h
  · cases h
  · rename_i hw
    cases h
    exact .starts hw
  · rename_i hw
    split_ifs at h with hr
    · cases h
      exact .goesOn hw hr
    · cases h
      exact .ends hw (by simpa using hr)
  · rename_i hw
    split at h
    · rename_i hl
      cases h
      exact .fails hw hl
    · rename_i hl
      cases h
      exact .finds hw hl
  · rename_i hw
    cases h
    exact .served hw
  · rename_i hw
    split at h
    · rename_i hl
      cases h
      exact .misses hw hl
    · rename_i hl
      cases h
      exact .calls hw hl

/-- Everything a step can do. -/
inductive Steps (s : State) : Event → State → Prop
  | init (fds : List ℕ) (ho : s.owner = .alive) (hw : s.worker = .absent) :
      Steps s (.init fds) { s with reactor := registerAll s.reactor fds, worker := .starts }
  | worker {found : Option Readiness} {s' : State} (hw : Works s found s') :
      Steps s (.worker found) s'
  | throw {key : Key} {keys : List Key} (hw : s.worker = .serves (key :: keys)) :
      Steps s .throw { s with terminated := true }
  | destroy (ho : s.owner = .alive) :
      Steps s .destroy { s with reactor := s.reactor.stop, owner := .joins }
  | join (ho : s.owner = .joins) (hw : s.worker = .absent ∨ s.worker = .ended) :
      Steps s .join { s with owner := .gone }

theorem step_cases {s s' : State} {e : Event} (h : step s e = some s') :
    s.terminated = false ∧ Steps s e s' := by
  unfold step at h
  split at h
  · cases h
  rename_i hlive
  refine ⟨by simpa using hlive, ?_⟩
  cases e with
  | init fds =>
    obtain ⟨hg, h⟩ := Option.ite_none_right_eq_some.mp h
    cases h
    exact .init fds hg.1 hg.2
  | worker found => exact .worker (works_of h)
  | throw =>
    dsimp only at h
    split at h
    · rename_i hw
      obtain ⟨-, h⟩ := Option.ite_none_right_eq_some.mp h
      cases h
      exact .throw hw
    · cases h
  | destroy =>
    obtain ⟨hg, h⟩ := Option.ite_none_right_eq_some.mp h
    cases h
    exact .destroy hg
  | join =>
    obtain ⟨hg, h⟩ := Option.ite_none_right_eq_some.mp h
    cases h
    exact .join hg.1 hg.2

variable {s s' : State} {e : Event}

/-! ### The thread and its table -/

/-- What the thread will look up is in the table, and it neither waits nor has returned with
the flag set. -/
structure Sound (s : State) : Prop where
  idle : s.worker = .absent ∨ s.worker = .ended → s.reactor.running = false
  gone : s.owner = .gone → s.worker = .absent ∨ s.worker = .ended
  listens : ∀ fdList, s.worker = .listens fdList → ∀ key ∈ fdList, key ∈ s.reactor.listenFuncs
  serves : ∀ keys, s.worker = .serves keys → ∀ key ∈ keys, key ∈ s.reactor.listenFuncs

theorem init_sound : Sound State.init :=
  ⟨fun _ => rfl, fun _ => .inl rfl, by simp [State.init], by simp [State.init]⟩

theorem Sound.works {found : Option Readiness} (h : Sound s) (hst : Works s found s') :
    Sound s' := by
  have hgone : ∀ w, s.worker = w → w ≠ .absent → w ≠ .ended → s.owner ≠ .gone := by
    rintro w rfl ha he ho
    exact (h.gone ho).elim ha he
  cases hst with
  | starts hw =>
    have ho := hgone _ hw (by simp) (by simp)
    exact ⟨by simp, fun h' => absurd h' ho, by simp, by simp⟩
  | goesOn hw hr =>
    have ho := hgone _ hw (by simp) (by simp)
    refine ⟨by simp, fun h' => absurd h' ho, ?_, by simp⟩
    rintro fdList hl key hkey
    cases hl
    exact AList.mem_keys.mpr hkey
  | ends hw hr => exact ⟨fun _ => hr, fun _ => .inr rfl, by simp, by simp⟩
  | fails hw hl => exact ⟨h.idle, h.gone, h.listens, h.serves⟩
  | finds hw hl =>
    have ho := hgone _ hw (by simp) (by simp)
    refine ⟨by simp, fun h' => absurd h' ho, by simp, ?_⟩
    rintro keys hk key hkey
    cases hk
    exact h.listens _ hw key ((listen_sublist hl).subset hkey)
  | served hw =>
    have ho := hgone _ hw (by simp) (by simp)
    exact ⟨by simp, fun h' => absurd h' ho, by simp, by simp⟩
  | misses hw hl => exact ⟨h.idle, h.gone, h.listens, h.serves⟩
  | calls hw hl =>
    have ho := hgone _ hw (by simp) (by simp)
    refine ⟨by simp, fun h' => absurd h' ho, by simp, ?_⟩
    rintro keys hk key hkey
    cases hk
    exact h.serves _ hw key (.tail _ hkey)

theorem Sound.of_step (h : Sound s) (hst : step s e = some s') : Sound s' := by
  cases (step_cases hst).2 with
  | init fds ho hw => exact ⟨by simp, by simp [ho], by simp, by simp⟩
  | worker hw => exact h.works hw
  | throw hw => exact ⟨h.idle, h.gone, h.listens, h.serves⟩
  | destroy ho => exact ⟨fun _ => rfl, by simp, h.listens, h.serves⟩
  | join ho hw => exact ⟨h.idle, fun _ => hw, h.listens, h.serves⟩

/-! ### The flag -/

/-- Once the destructor has run, the flag is cleared for good. -/
def State.Stopped (s : State) : Prop :=
  s.owner = .alive ∨ s.worker ≠ .starts ∧ s.reactor.running = false

/-- The flag stays cleared exactly if the destructor is in time. -/
theorem step_stopped (hst : step s e = some s') : s'.Stopped ↔ s.Stopped ∧ InTime s e := by
  cases (step_cases hst).2 with
  | init fds ho hw => simp [State.Stopped, InTime, ho]
  | worker hw =>
    cases hw with
    | starts hw => simp [State.Stopped, InTime, hw]
    | goesOn hw hr => simp [State.Stopped, InTime, hw]
    | ends hw hr => simp [State.Stopped, InTime, hw]
    | fails hw hl => simp [State.Stopped, InTime]
    | finds hw hl => simp [State.Stopped, InTime, hw]
    | served hw => simp [State.Stopped, InTime, hw]
    | misses hw hl => simp [State.Stopped, InTime]
    | calls hw hl => simp [State.Stopped, InTime, hw, Reactor.handle]
  | throw hw => simp [State.Stopped, InTime]
  | destroy ho => simp [State.Stopped, InTime, ho, Reactor.stop]
  | join ho hw => simp [State.Stopped, InTime, ho]

theorem stopped_iff {es : List Event} (h : run step (fun _ _ => True) es s = some s') :
    s'.Stopped ↔ s.Stopped ∧ run step InTime es s = some s' :=
  run_exact (I := fun _ => True) (fun _ _ _ _ _ => trivial) (fun _ _ _ hst _ => step_stopped hst)
    h trivial

/-! ### After the destructor -/

/-- The thread and the join, as long as no handler throws and `select` does not fail. -/
def Event.Own : Event → Prop
  | .worker (some _) | .join => True
  | _ => False

/-- The destructor has come in time and is waiting, or has ended. -/
structure Ending (s : State) : Prop where
  sound : Sound s
  live : s.terminated = false
  owner : s.owner ≠ .alive
  started : s.worker ≠ .starts
  running : s.reactor.running = false

/-- What the thread and the join still have to do. -/
def State.remaining (s : State) : ℕ :=
  (match s.worker with
    | .absent | .starts | .ended => 0
    | .tests => 1
    | .serves keys => keys.length + 2
    | .listens fdList => fdList.length + 3) +
  if s.owner = .joins then 1 else 0

/-- Each step brings the end nearer, and none leads into `Listen` again. -/
theorem Ending.own_step (h : Ending s) (hown : e.Own) (hst : step s e = some s') :
    Ending s' ∧ s'.remaining < s.remaining ∧ ∀ fdList, s'.worker ≠ .listens fdList := by
  have hsound := h.sound.of_step hst
  obtain ⟨hlive, hst⟩ := step_cases hst
  cases hst with
  | init fds ho hw => exact absurd hown id
  | throw hw => exact absurd hown id
  | destroy ho => exact absurd hown id
  | join ho hw =>
    refine ⟨⟨hsound, hlive, by simp, h.started, h.running⟩, ?_, ?_⟩
    · rcases hw with hw | hw <;> simp [State.remaining, hw, ho]
    · rcases hw with hw | hw <;> simp [hw]
  | @worker found s' hw =>
    cases found with
    | none => exact absurd hown id
    | some ready =>
      cases hw with
      | starts hw => exact absurd hw h.started
      | goesOn hw hr => exact absurd (hr.symm.trans h.running) (by simp)
      | ends hw hr =>
        exact ⟨⟨hsound, hlive, h.owner, by simp, h.running⟩, by simp [State.remaining, hw],
          by simp⟩
      | fails hw hl => cases hl
      | finds hw hl =>
        have hlen := (listen_sublist hl).length_le
        refine ⟨⟨hsound, hlive, h.owner, by simp, h.running⟩, ?_, by simp⟩
        simp only [State.remaining, hw]
        omega
      | served hw =>
        exact ⟨⟨hsound, hlive, h.owner, by simp, h.running⟩, by simp [State.remaining, hw],
          by simp⟩
      | misses hw hl =>
        -- the table still has what `Listen` was given
        have hmem := AList.lookup_isSome.mpr (h.sound.serves _ hw _ List.mem_cons_self)
        rw [hl] at hmem
        cases hmem
      | calls hw hl =>
        exact ⟨⟨hsound, hlive, h.owner, by simp, h.running⟩, by simp [State.remaining, hw],
          by simp⟩

/-- While the destructor waits, the thread can go on, or the join returns. -/
theorem Ending.goes_on (h : Ending s) (ho : s.owner = .joins) :
    ∃ e : Event, e.Own ∧ (step s e).isSome := by
  have hworker : (s.work (some ⟨fun _ => false, fun _ => false⟩)).isSome →
      ∃ e : Event, e.Own ∧ (step s e).isSome := fun hw =>
    ⟨.worker (some ⟨fun _ => false, fun _ => false⟩), trivial, by
      unfold step
      simpa [h.live] using hw⟩
  have hjoin : s.worker = .absent ∨ s.worker = .ended →
      ∃ e : Event, e.Own ∧ (step s e).isSome := fun hw =>
    ⟨.join, trivial, by unfold step; simp [h.live, ho, hw]⟩
  cases hw : s.worker with
  | absent => exact hjoin (.inl hw)
  | ended => exact hjoin (.inr hw)
  | starts => exact absurd hw h.started
  | tests => exact hworker (by simp [State.work, hw, h.running])
  | listens fdList => exact hworker (by simp [State.work, hw, listen])
  | serves keys =>
    apply hworker
    cases keys with
    | nil => simp [State.work, hw]
    | cons key keys =>
      obtain ⟨minion, hl⟩ := Option.isSome_iff_exists.mp
        (AList.lookup_isSome.mpr (h.sound.serves _ hw key List.mem_cons_self))
      simp [State.work, hw, hl]

theorem Ending.own_run (h : Ending s) {own : List Event} (hown : ∀ e ∈ own, e.Own)
    (hrun : run step (fun _ _ => True) own s = some s') :
    Ending s' ∧ s'.remaining + own.length ≤ s.remaining ∧
      ∀ fdList, s'.worker = .listens fdList → own = [] := by
  induction own generalizing s with
  | nil =>
    cases hrun
    exact ⟨h, le_rfl, fun _ _ => rfl⟩
  | cons e own ih =>
    obtain ⟨-, m, hm, hrest⟩ := run_cons.mp hrun
    obtain ⟨hm', hlt, hlisten⟩ := h.own_step (hown e List.mem_cons_self) hm
    obtain ⟨hend, hle, hown'⟩ := ih hm' (fun e' he => hown e' (List.mem_cons_of_mem _ he)) hrest
    refine ⟨hend, by rw [List.length_cons]; omega, fun fdList hw => ?_⟩
    -- no step leads into `Listen`
    obtain rfl := hown' fdList hw
    cases hrest
    exact absurd hw (hlisten fdList)

/-- The destructor can return. -/
theorem Ending.returns (h : Ending s) (ho : s.owner = .joins) :
    ∃ own s', (∀ e ∈ own, Event.Own e) ∧ run step (fun _ _ => True) own s = some s' ∧
      s'.owner = .gone := by
  induction hn : s.remaining using Nat.strong_induction_on generalizing s with
  | _ n ih =>
    obtain ⟨e, hown, hsome⟩ := h.goes_on ho
    obtain ⟨m, hm⟩ := Option.isSome_iff_exists.mp hsome
    obtain ⟨hm', hlt, -⟩ := h.own_step hown hm
    cases hom : m.owner with
    | alive => exact absurd hom hm'.owner
    | gone =>
      exact ⟨[e], m, by simpa using hown, run_cons.mpr ⟨trivial, m, hm, rfl⟩, hom⟩
    | joins =>
      obtain ⟨own, s', hall, hrun, hgone⟩ := ih _ (hn ▸ hlt) hm' hom rfl
      exact ⟨e :: own, s', List.forall_mem_cons.mpr ⟨hown, hall⟩,
        run_cons.mpr ⟨trivial, m, hm, hrun⟩, hgone⟩

theorem ending_of_inTime {es : List Event} (h : run step InTime es State.init = some s)
    (ho : s.owner = .joins) (hlive : s.terminated = false) : Ending s := by
  have hfree := run_mono (fun _ _ _ => trivial) h
  have hsound : Sound s :=
    run_invariant (fun _ _ _ _ hst hi => hi.of_step hst) hfree init_sound
  have hstopped : s.Stopped := (stopped_iff hfree).mpr ⟨.inl rfl, h⟩
  obtain hs | ⟨hw, hr⟩ := hstopped
  · rw [ho] at hs
    cases hs
  · exact ⟨hsound, hlive, by simp [ho], hw, hr⟩

/-- If the destructor does not come between the start of the thread and its first store, then
it ends as soon as a `Listen` that is under way returns: the steps that the thread and the join
still take are bounded, the thread does not enter `Listen` again, and when no step is left,
the join has returned. -/
theorem destructor_ends (es : List Event) (s : State)
    (h : run step InTime es State.init = some s) (ho : s.owner = .joins)
    (hlive : s.terminated = false) (own : List Event) (hown : ∀ e ∈ own, e.Own) (s' : State)
    (hrun : run step (fun _ _ => True) own s = some s') :
    own.length ≤ s.remaining ∧ (∀ fdList, s'.worker = .listens fdList → own = []) ∧
      ((∀ e : Event, e.Own → step s' e = none) → s'.owner = .gone) := by
  obtain ⟨hend, hle, hlisten⟩ := (ending_of_inTime h ho hlive).own_run hown hrun
  refine ⟨by omega, hlisten, fun hnone => ?_⟩
  cases ho' : s'.owner with
  | alive => exact absurd ho' hend.owner
  | gone => rfl
  | joins =>
    obtain ⟨e, he, hsome⟩ := hend.goes_on ho'
    rw [hnone e he] at hsome
    cases hsome

/-- The thread waits for answers of two minions when the destructor comes. -/
def twoMinions : List Event := [.init [3, 4], .worker none, .worker none, .destroy]

/-- The second minion answers; the thread serves it and ends. -/
def lastAnswer : List Event :=
  List.replicate 4 (.worker (some ⟨fun fd => fd == 4, fun _ => false⟩)) ++ [.join]

theorem destructor_ends_lastAnswer :
    ∃ s s', run step InTime twoMinions State.init = some s ∧
      s.worker = .listens [(4, .read), (3, .read)] ∧
      run step (fun _ _ => True) lastAnswer s = some s' ∧ s'.owner = .gone ∧
      lastAnswer.length ≤ s.remaining := by
  have hrun : (run step InTime twoMinions State.init).map
      (fun s => (s.owner, s.worker, s.terminated)) =
        some (.joins, .listens [(4, .read), (3, .read)], false) := by decide
  have hboth : (run step (fun _ _ => True) (twoMinions ++ lastAnswer) State.init).map
      State.owner = some .gone := by decide
  obtain ⟨s, hs, hproj⟩ := Option.map_eq_some_iff.mp hrun
  obtain ⟨ho, hw, hlive⟩ : s.owner = .joins ∧ s.worker = .listens [(4, .read), (3, .read)] ∧
      s.terminated = false := by simpa using hproj
  obtain ⟨s', hs', hgone⟩ := Option.map_eq_some_iff.mp hboth
  rw [run_append, run_mono (fun _ _ _ => trivial) hs] at hs'
  have hown : ∀ e ∈ lastAnswer, e.Own := by simp [lastAnswer, Event.Own]
  exact ⟨s, s', hs, hw, hs', hgone, (destructor_ends twoMinions s hs ho hlive lastAnswer hown s'
    hs').1⟩

/-- The destructor can return exactly if it has not come between the start of the thread and
its first store. Otherwise the thread sets the flag again, and nothing clears it any more. -/
theorem destructor_returns_iff (es : List Event) (s : State)
    (h : run step (fun _ _ => True) es State.init = some s) (ho : s.owner = .joins)
    (hlive : s.terminated = false) :
    (∃ own s', (∀ e ∈ own, Event.Own e) ∧ run step (fun _ _ => True) own s = some s' ∧
      s'.owner = .gone) ↔ run step InTime es State.init = some s := by
  constructor
  · rintro ⟨own, s', -, hrun, hgone⟩
    have hsound : Sound s' := run_invariant (fun _ _ _ _ hst hi => hi.of_step hst) hrun
      (run_invariant (fun _ _ _ _ hst hi => hi.of_step hst) h init_sound)
    have hw := hsound.gone hgone
    have hstopped : s'.Stopped := by
      refine .inr ⟨?_, hsound.idle hw⟩
      rcases hw with hw | hw <;> simp [hw]
    exact ((stopped_iff h).mp ((stopped_iff hrun).mp hstopped).1).2
  · exact fun h => (ending_of_inTime h ho hlive).returns ho

/-- The manager is destroyed before its thread has begun. -/
def destroyedFirst : List Event := [.init [3], .destroy]

theorem destructor_returns_iff_destroyedFirst :
    ∃ s, run step (fun _ _ => True) destroyedFirst State.init = some s ∧ s.owner = .joins ∧
      ¬ ∃ own s', (∀ e ∈ own, Event.Own e) ∧ run step (fun _ _ => True) own s = some s' ∧
        s'.owner = .gone := by
  have hrun : (run step (fun _ _ => True) destroyedFirst State.init).map
      (fun s => (s.owner, s.terminated)) = some (.joins, false) := by decide
  obtain ⟨s, hs, hproj⟩ := Option.map_eq_some_iff.mp hrun
  obtain ⟨ho, hlive⟩ : s.owner = .joins ∧ s.terminated = false := by simpa using hproj
  refine ⟨s, hs, ho, fun hreturns => ?_⟩
  have hinTime := (destructor_returns_iff destroyedFirst s hs ho hlive).mp hreturns
  have hnone : run step InTime destroyedFirst State.init = none := by decide
  rw [hnone] at hinTime
  cases hinTime

end IoTDrive.EventLoop.Shutdown
