import IoTDrive.Lib.Transition
import IoTDrive.Master.Proxy
import IoTDrive.Master.Ticket

/-! The map of one proxy as a ledger of callbacks. `AddReadTask` and `AddWriteTask` enter a
callback under a UID, an answer strikes out the callback that it calls; both do so
under the lock of the proxy, so they come one after another. Callbacks are named by the number
of the call that entered them. In every sequence of calls and datagrams a UID is in the map
exactly from an entry on until the next answer with it. -/

namespace IoTDrive.Master

open Lib Message

/-- A proxy, the UIDs of the calls that registered a callback, and the callbacks called, with
their answers. -/
structure Ledger where
  proxy : MinionProxy ℕ
  registered : List UID
  invoked : List (ℕ × AMessage)

namespace Ledger

inductive Event where
  | addTask (op : TicketOp) (uid : UID)
  | wakeUp (stack : ℕ → UInt8) (d : List UInt8)

/-- The two calls register alike. A datagram that no decoder takes ends the receive loop, and
with it the run. -/
def step (s : Ledger) : Event → Option Ledger
  | .addTask _ uid => some { s with
      proxy := s.proxy.register uid s.registered.length
      registered := s.registered ++ [uid] }
  | .wakeUp stack d =>
    match s.proxy.onMinionFDWakeUp stack d with
    | (_, .crash) => none
    | (proxy, .refused) => some { s with proxy := proxy }
    | (proxy, .unknownUID _) => some { s with proxy := proxy }
    | (proxy, .invoke n m) => some { s with proxy := proxy, invoked := s.invoked ++ [(n, m)] }

def start : Ledger := ⟨.empty, [], []⟩

/-- The datagram is an answer with the UID. -/
def Event.Answers (uid : UID) : Event → Prop
  | .addTask .. => False
  | .wakeUp stack d => ∃ m, receive masterTypes stack d = .message m ∧ m.getUID = uid

/-- A callback was registered under the UID, and no answer with it has come since. -/
def Awaits (uid : UID) (events : List Event) : Prop :=
  ∃ before op after, events = before ++ .addTask op uid :: after ∧ ∀ e ∈ after, ¬ e.Answers uid

/-- The ledger after an answer has called a callback. -/
def called (s : Ledger) (n : ℕ) (m : AMessage) : Ledger :=
  { s with proxy := ⟨Function.update s.proxy.map m.getUID none⟩, invoked := s.invoked ++ [(n, m)] }

variable {s s' : Ledger} {e : Event} {events : List Event} {uid : UID} {m : AMessage} {n : ℕ}
  {stack : ℕ → UInt8} {d : List UInt8}

/-! ### One step -/

/-- An answer calls what its UID stands for, and without an entry it changes nothing. -/
theorem step_message (h : receive masterTypes stack d = .message m) :
    s.step (.wakeUp stack d) = some ((s.proxy.map m.getUID).elim s fun n => s.called n m) := by
  have hd : s.proxy.onMinionFDWakeUp stack d = s.proxy.dispatch m := by
    unfold MinionProxy.onMinionFDWakeUp
    rw [h]
  simp only [step, hd]
  cases hn : s.proxy.map m.getUID with
  | none =>
    simp only [MinionProxy.dispatch_of_none hn]
    rfl
  | some n =>
    simp only [MinionProxy.dispatch_of_some hn]
    rfl

theorem step_cases (h : s.step e = some s') :
    (∃ op uid, e = .addTask op uid ∧ s' = { s with
      proxy := s.proxy.register uid s.registered.length
      registered := s.registered ++ [uid] }) ∨
    s' = s ∧ (∀ uid, (∀ op, e ≠ .addTask op uid) ∧
      (e.Answers uid → s.proxy.map uid = none)) ∨
    ∃ n m, (∀ uid, (∀ op, e ≠ .addTask op uid) ∧ (e.Answers uid ↔ uid = m.getUID)) ∧
      s.proxy.map m.getUID = some n ∧ s' = s.called n m := by
  cases e with
  | addTask op uid => exact .inl ⟨op, uid, rfl, (Option.some.inj h).symm⟩
  | wakeUp stack d =>
    right
    cases hd : receive masterTypes stack d with
    | message m =>
      rw [step_message hd] at h
      have hanswers : ∀ uid, Event.Answers uid (.wakeUp stack d) ↔ uid = m.getUID := by
        intro uid
        constructor
        · rintro ⟨m', hm', rfl⟩
          obtain rfl : m = m' := by simpa using hd.symm.trans hm'
          rfl
        · rintro rfl
          exact ⟨m, hd, rfl⟩
      cases hn : s.proxy.map m.getUID with
      | none =>
        rw [hn] at h
        refine .inl ⟨(Option.some.inj h).symm, fun uid => ⟨fun op => nofun, fun ha => ?_⟩⟩
        rw [(hanswers uid).mp ha]
        exact hn
      | some n =>
        rw [hn] at h
        exact .inr ⟨n, m, fun uid => ⟨fun op => nofun, hanswers uid⟩, hn, (Option.some.inj h).symm⟩
    | short =>
      simp only [step, MinionProxy.onMinionFDWakeUp, hd, Option.some.injEq] at h
      refine .inl ⟨h.symm, fun uid => ⟨fun op => nofun, ?_⟩⟩
      rintro ⟨m, hm, -⟩
      cases hd.symm.trans hm
    | mismatch =>
      simp only [step, MinionProxy.onMinionFDWakeUp, hd, Option.some.injEq] at h
      refine .inl ⟨h.symm, fun uid => ⟨fun op => nofun, ?_⟩⟩
      rintro ⟨m, hm, -⟩
      cases hd.symm.trans hm
    | unknownType => simp [step, MinionProxy.onMinionFDWakeUp, hd] at h
    | fault => simp [step, MinionProxy.onMinionFDWakeUp, hd] at h

/-! ### At most once -/

/-- Callbacks that wait have not been called, no callback has been called twice, and each was
called with an answer that has its UID. -/
structure Consistent (s : Ledger) : Prop where
  pending : ∀ uid n, s.proxy.map uid = some n →
    s.registered[n]? = some uid ∧ n ∉ s.invoked.map Prod.fst
  called : ∀ c ∈ s.invoked, s.registered[c.1]? = some c.2.getUID
  once : (s.invoked.map Prod.fst).Nodup

theorem start_consistent : Consistent start where
  pending _ _ h := by cases h
  called _ hc := absurd hc List.not_mem_nil
  once := List.nodup_nil

theorem step_consistent (h : s.step e = some s') (hs : Consistent s) : Consistent s' := by
  have hlt : ∀ n ∈ s.invoked.map Prod.fst, n < s.registered.length := by
    intro n hn
    obtain ⟨c, hc, rfl⟩ := List.mem_map.mp hn
    exact (List.getElem?_eq_some_iff.mp (hs.called c hc)).1
  rcases step_cases h with ⟨op, v, -, rfl⟩ | ⟨rfl, -⟩ | ⟨k, m, -, hk, rfl⟩
  · refine ⟨fun uid n hn => ?_, fun c hc => ?_, hs.once⟩
    · by_cases huid : uid = v
      · subst huid
        simp only [MinionProxy.register_self, Option.some.injEq] at hn
        subst hn
        refine ⟨by simp, fun hmem => Nat.lt_irrefl _ (hlt _ hmem)⟩
      · simp only [MinionProxy.register_of_ne _ _ huid] at hn
        obtain ⟨hreg, hnot⟩ := hs.pending uid n hn
        exact ⟨List.getElem?_append_left (List.getElem?_eq_some_iff.mp hreg).1 ▸ hreg, hnot⟩
    · have hreg := hs.called c hc
      exact List.getElem?_append_left (List.getElem?_eq_some_iff.mp hreg).1 ▸ hreg
  · exact hs
  · obtain ⟨hreg, hnot⟩ := hs.pending _ k hk
    refine ⟨fun uid n hn => ?_, fun c hc => ?_, ?_⟩
    · by_cases huid : uid = m.getUID
      · simp [Ledger.called, huid] at hn
      · simp only [Ledger.called, Function.update_of_ne huid] at hn
        obtain ⟨hreg', hnot'⟩ := hs.pending uid n hn
        refine ⟨hreg', ?_⟩
        simp only [Ledger.called, List.map_append, List.mem_append, List.map_cons, List.map_nil,
          List.mem_singleton, not_or]
        refine ⟨hnot', ?_⟩
        rintro rfl
        exact huid (Option.some.inj (hreg'.symm.trans hreg))
    · rcases List.mem_append.mp hc with hc | hc
      · exact hs.called c hc
      · rw [List.mem_singleton.mp hc]
        exact hreg
    · simp only [Ledger.called, List.map_append, List.map_cons, List.map_nil]
      rw [List.nodup_append]
      refine ⟨hs.once, List.nodup_singleton k, ?_⟩
      intro a ha b hb hab
      rw [List.mem_singleton.mp hb] at hab
      exact hnot (hab ▸ ha)

/-! ### Which UIDs wait -/

theorem awaits_concat :
    Awaits uid (events ++ [e]) ↔
      (∃ op, e = .addTask op uid) ∨ Awaits uid events ∧ ¬ e.Answers uid := by
  constructor
  · rintro ⟨before, op, after, heq, hafter⟩
    rcases List.eq_nil_or_concat' after with rfl | ⟨after, e', rfl⟩
    · obtain ⟨-, he⟩ := List.append_inj' heq rfl
      exact .inl ⟨op, (List.singleton_inj.mp he)⟩
    · rw [← List.cons_append, ← List.append_assoc] at heq
      obtain ⟨rfl, he⟩ := List.append_inj' heq rfl
      obtain rfl := List.singleton_inj.mp he
      refine .inr ⟨⟨before, op, after, rfl, ?_⟩, ?_⟩
      · intro e' he'
        exact hafter e' (List.mem_append_left _ he')
      · exact hafter e (by simp)
  · rintro (⟨op, rfl⟩ | ⟨⟨before, op, after, rfl, hafter⟩, he⟩)
    · refine ⟨events, op, [], rfl, ?_⟩
      intro e' he'
      cases he'
    · refine ⟨before, op, after ++ [e], by simp, ?_⟩
      intro e' he'
      rcases List.mem_append.mp he' with he' | he'
      · exact hafter e' he'
      · rw [List.mem_singleton.mp he']
        exact he

/-- The map has an entry for the UIDs that wait, and for no others. -/
theorem awaits_iff (h : run step (fun _ _ => True) events start = some s) :
    s.proxy.map uid ≠ none ↔ Awaits uid events := by
  induction events using List.reverseRecOn generalizing s with
  | nil =>
    obtain rfl : start = s := Option.some.inj h
    constructor
    · intro hne
      exact absurd rfl hne
    · rintro ⟨before, op, after, heq, -⟩
      simp at heq
  | append_singleton events e ih =>
    rw [run_concat] at h
    obtain ⟨s₁, h₁, hstep⟩ := Option.bind_eq_some_iff.mp h
    rw [if_pos trivial] at hstep
    rw [awaits_concat, ← ih h₁]
    rcases step_cases hstep with ⟨op, v, rfl, rfl⟩ | ⟨rfl, hno⟩ | ⟨n, m, hm, hn, rfl⟩
    · by_cases huid : uid = v
      · subst huid
        simp
      · simp [MinionProxy.register_of_ne _ _ huid, Event.Answers, Ne.symm huid]
    · obtain ⟨hadd, hans⟩ := hno uid
      constructor
      · intro hne
        exact .inr ⟨hne, fun ha => hne (hans ha)⟩
      · rintro (⟨op, rfl⟩ | ⟨hne, -⟩)
        · exact absurd rfl (hadd op)
        · exact hne
    · obtain ⟨hadd, hans⟩ := hm uid
      by_cases huid : uid = m.getUID
      · subst huid
        simp [called, hadd, hans]
      · simp [called, huid, hadd, hans]

/-! ### Whole sequences -/

theorem run_consistent (h : run step (fun _ _ => True) events start = some s) : Consistent s :=
  run_invariant (fun _ _ _ _ => step_consistent) h start_consistent

/-- Calls are only added. -/
theorem step_registered (h : s.step e = some s') : s.registered <+: s'.registered := by
  rcases step_cases h with ⟨op, uid, -, rfl⟩ | ⟨rfl, -⟩ | ⟨n, m, -, -, rfl⟩
  · exact List.prefix_append _ _
  · exact List.prefix_refl _
  · exact List.prefix_refl _

theorem run_registered (h : run step (fun _ _ => True) events s = some s') :
    s.registered <+: s'.registered :=
  run_invariant (P := fun t => s.registered <+: t.registered)
    (fun _ _ _ _ hstep hs => hs.trans (step_registered hstep)) h (List.prefix_refl _)

theorem run_front {pre post : List Event}
    (h : run step (fun _ _ => True) (pre ++ post) start = some s) :
    ∃ s₁, run step (fun _ _ => True) pre start = some s₁ ∧ s₁.registered <+: s.registered := by
  rw [run_append] at h
  obtain ⟨s₁, h₁, h₂⟩ := Option.bind_eq_some_iff.mp h
  exact ⟨s₁, h₁, run_registered h₂⟩

/-- In every sequence of calls and datagrams. At every moment the callbacks called so far are
called once each, each was registered before and with the UID of its answer. If no UID is
registered twice, an answer whose UID was registered and has had no answer since calls the
callback of that UID and strikes it out; every other answer changes nothing. -/
theorem once_only (events : List Event) (s : Ledger)
    (h : run step (fun _ _ => True) events start = some s) :
    (∀ pre post, events = pre ++ post → ∃ s₁, run step (fun _ _ => True) pre start = some s₁ ∧
      (s₁.invoked.map Prod.fst).Nodup ∧
      ∀ c ∈ s₁.invoked, s₁.registered[c.1]? = some c.2.getUID) ∧
    (s.registered.Nodup → ∀ pre stack d post m, events = pre ++ .wakeUp stack d :: post →
      receive masterTypes stack d = .message m →
      ∃ s₁, run step (fun _ _ => True) pre start = some s₁ ∧
        (Awaits m.getUID pre → ∃ n, (∀ k : ℕ, s₁.registered[k]? = some m.getUID ↔ k = n) ∧
          s₁.step (.wakeUp stack d) = some (s₁.called n m)) ∧
        (¬ Awaits m.getUID pre → s₁.step (.wakeUp stack d) = some s₁)) := by
  constructor
  · rintro pre post rfl
    obtain ⟨s₁, h₁, -⟩ := run_front h
    have hs := run_consistent h₁
    exact ⟨s₁, h₁, hs.once, hs.called⟩
  · rintro hdistinct pre stack d post m rfl hm
    obtain ⟨s₁, h₁, hpre⟩ := run_front h
    refine ⟨s₁, h₁, ?_, ?_⟩
    · intro hawaits
      obtain ⟨n, hn⟩ := Option.ne_none_iff_exists'.mp ((awaits_iff h₁).mpr hawaits)
      obtain ⟨hreg, -⟩ := (run_consistent h₁).pending _ n hn
      refine ⟨n, ?_, ?_⟩
      · intro k
        constructor
        · intro hk
          obtain ⟨hlt, -⟩ := List.getElem?_eq_some_iff.mp hk
          exact (List.getElem?_inj hlt (hdistinct.sublist hpre.sublist)).mp (hk.trans hreg.symm)
        · rintro rfl
          exact hreg
      · rw [step_message hm, hn]
        rfl
    · intro hno
      have hnone : s₁.proxy.map m.getUID = none := by
        by_contra hne
        exact hno ((awaits_iff h₁).mp hne)
      rw [step_message hm, hnone]
      rfl

/-- The acknowledgement of a write with UID 5. -/
theorem exists_acknowledgement :
    ∃ d, receive masterTypes (fun _ => 0) d = .message (.writeReceive 5 1) := by
  obtain ⟨d, -, hd⟩ := receive_datagram masterTypes (.writeReceive 5 1) (fun _ => 0) (by decide)
    trivial (by decide)
  exact ⟨d, hd _⟩

/-- A write whose acknowledgement the network delivers twice: the first one calls the
callback. -/
theorem once_only_duplicate :
    ∃ d s s₁, run step (fun _ _ => True) [.addTask .write 5, .wakeUp (fun _ => 0) d,
        .wakeUp (fun _ => 0) d] start = some s ∧
      (s.invoked.map Prod.fst).Nodup ∧ s.invoked = [(0, .writeReceive 5 1)] ∧
      run step (fun _ _ => True) [.addTask .write 5] start = some s₁ ∧
      ∃ n, s₁.step (.wakeUp (fun _ => 0) d) = some (s₁.called n (.writeReceive 5 1)) := by
  obtain ⟨d, hd⟩ := exists_acknowledgement
  have hrun : run step (fun _ _ => True) [.addTask .write 5, .wakeUp (fun _ => 0) d,
      .wakeUp (fun _ => 0) d] start = some (called
        { start with proxy := start.proxy.register 5 0, registered := [5] } 0
          (.writeReceive 5 1)) := by
    refine run_cons.mpr ⟨trivial, _, rfl, ?_⟩
    refine run_cons.mpr ⟨trivial, _, step_message hd, ?_⟩
    refine run_cons.mpr ⟨trivial, _, step_message hd, ?_⟩
    rfl
  obtain ⟨hmoments, hanswers⟩ := once_only _ _ hrun
  obtain ⟨s, hs, honce, -⟩ := hmoments _ [] (List.append_nil _).symm
  obtain rfl := Option.some.inj (hrun.symm.trans hs)
  obtain ⟨s₁, hs₁, hcalls, -⟩ := hanswers (List.nodup_singleton 5) [.addTask .write 5] _ d _ _ rfl hd
  have hawaits : Awaits 5 [.addTask .write 5] := by
    refine ⟨[], .write, [], rfl, ?_⟩
    intro e he
    cases he
  obtain ⟨n, -, hstep⟩ := hcalls hawaits
  exact ⟨d, _, s₁, hrun, honce, rfl, hs₁, n, hstep⟩

/-- An answer that comes before its UID is registered is the first one with this UID and calls
nothing; the second one calls the callback. -/
theorem early_answer :
    ∃ d s₁ s₂ s₃, receive masterTypes (fun _ => 0) d = .message (.writeReceive 5 1) ∧
      start.step (.wakeUp (fun _ => 0) d) = some s₁ ∧ s₁.invoked = [] ∧
      s₁.step (.addTask .write 5) = some s₂ ∧
      s₂.step (.wakeUp (fun _ => 0) d) = some s₃ ∧
      s₃.registered = [5] ∧ s₃.invoked = [(0, .writeReceive 5 1)] := by
  obtain ⟨d, hd⟩ := exists_acknowledgement
  exact ⟨d, start, { start with proxy := start.proxy.register 5 0, registered := [5] }, _, hd,
    step_message hd, rfl, rfl, step_message hd, rfl, rfl⟩

end Ledger

end IoTDrive.Master
