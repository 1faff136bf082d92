import IoTDrive.EventLoop.Listener
import Mathlib.Data.List.AList

/-! The event loop. A round takes the registered pairs, has the listener choose the ready ones,
and looks each of them up again before it calls its handler, which may change the
registrations in between. A handler is known by a name; what it does may depend on
everything before, so it is a function of the number of calls made so far. The
order in which the map lists its keys plays no part: the ready pairs come in any order. -/

namespace IoTDrive.EventLoop

variable {H : Type*}

/-- What a handler may do to its reactor. -/
inductive Op (H : Type*) where
  | register (key : Key) (func : H)
  | unregister (key : Key)
  | stop

/-- What happens in a round. -/
inductive Event where
  | called (key : Key)
  | registered (key : Key)
  | unregistered (key : Key)
  | stopped
  deriving DecidableEq, Repr

def Op.event : Op H → Event
  | .register key _ => .registered key
  | .unregister key => .unregistered key
  | .stop => .stopped

/-- `m_listen_funcs`. -/
abbrev Table (H : Type*) := AList fun _ : Key => H

/-- `Reactor`; no step reads the trace. -/
structure Reactor (H : Type*) where
  listenFuncs : Table H
  running : Bool
  trace : List Event

namespace Reactor

/-- `Register`: `emplace` leaves a pair that is there already as it is. -/
def register (r : Reactor H) (key : Key) (func : H) : Reactor H :=
  if key ∈ r.listenFuncs then r else { r with listenFuncs := r.listenFuncs.insert key func }

def unregister (r : Reactor H) (key : Key) : Reactor H :=
  { r with listenFuncs := r.listenFuncs.erase key }

/-- `Stop`; the round goes on. -/
def stop (r : Reactor H) : Reactor H := { r with running := false }

def perform (r : Reactor H) (op : Op H) : Reactor H :=
  let r' := match op with
    | .register key func => r.register key func
    | .unregister key => r.unregister key
    | .stop => r.stop
  { r' with trace := r.trace ++ [op.event] }

/-- A call of the handler of `key`. -/
def handle (r : Reactor H) (key : Key) (ops : List (Op H)) : Reactor H :=
  ops.foldl perform { r with trace := r.trace ++ [.called key] }

/-- The second loop of `Run` after `n` calls, and whether it ends without an exception: `at`
throws for a pair that is not there. -/
def serve (act : H → Key → ℕ → List (Op H)) : ℕ → List Key → Reactor H → Reactor H × Bool
  | _, [], r => (r, true)
  | n, key :: keys, r =>
    match r.listenFuncs.lookup key with
    | none => (r, false)
    | some func => serve act (n + 1) keys (r.handle key (act func key n))

/-- One round, for what `Listen` returns; the trace starts anew. -/
def round (act : H → Key → ℕ → List (Op H)) (n : ℕ) (ready : List Key) (r : Reactor H) :
    Reactor H × Bool :=
  serve act n ready { r with trace := [] }

/-- `Run`, as long as there are calls of `Listen` to come; each either throws or chooses some of
the pairs it is given. -/
def run (act : H → Key → ℕ → List (Op H)) :
    List (List Key → Except String (List Key)) → ℕ → Reactor H → Reactor H × Bool
  | [], _, r => (r, true)
  | listen :: listens, n, r =>
    if r.running then
      match listen r.listenFuncs.keys with
      | .error _ => (r, false)
      | .ok ready =>
        let (r', ok) := r.round act n ready
        if ok then run act listens (n + ready.length) r' else (r', false)
    else (r, true)

/-! ### One call -/

@[simp] theorem perform_trace (r : Reactor H) (op : Op H) :
    (r.perform op).trace = r.trace ++ [op.event] := rfl

/-- A pair stays as it was unless it is unregistered. -/
theorem lookup_perform {r : Reactor H} {op : Op H} {key : Key} (hkey : key ∈ r.listenFuncs)
    (hop : op ≠ .unregister key) :
    (r.perform op).listenFuncs.lookup key = r.listenFuncs.lookup key := by
  cases op with
  | register key' func =>
    simp only [perform, register]
    split_ifs with hmem
    · rfl
    · exact AList.lookup_insert_ne fun h => hmem (h ▸ hkey)
  | unregister key' =>
    have hne : key ≠ key' := fun h => hop (h ▸ rfl)
    exact AList.lookup_erase_ne hne
  | stop => rfl

theorem mem_of_lookup_eq {t t' : Table H} {key : Key} (h : t'.lookup key = t.lookup key)
    (hkey : key ∈ t) : key ∈ t' := by
  rw [← AList.lookup_isSome] at hkey ⊢
  rw [h]
  exact hkey

theorem foldl_perform_trace (ops : List (Op H)) (r : Reactor H) :
    (ops.foldl perform r).trace = r.trace ++ ops.map Op.event := by
  induction ops generalizing r with
  | nil => simp
  | cons op ops ih => simp [ih]

theorem lookup_foldl_perform {key : Key} {ops : List (Op H)} {r : Reactor H}
    (hkey : key ∈ r.listenFuncs) (hops : Op.unregister key ∉ ops) :
    (ops.foldl perform r).listenFuncs.lookup key = r.listenFuncs.lookup key := by
  induction ops generalizing r with
  | nil => rfl
  | cons op ops ih =>
    rw [List.mem_cons, not_or] at hops
    have hone := lookup_perform hkey (Ne.symm hops.1)
    rw [List.foldl_cons, ih (mem_of_lookup_eq hone hkey) hops.2, hone]

theorem handle_trace (r : Reactor H) (key : Key) (ops : List (Op H)) :
    (r.handle key ops).trace = r.trace ++ (.called key :: ops.map Op.event) := by
  rw [handle, foldl_perform_trace, List.append_assoc, List.singleton_append]

theorem lookup_handle {r : Reactor H} {key key' : Key} {ops : List (Op H)}
    (hkey : key' ∈ r.listenFuncs) (hops : Op.unregister key' ∉ ops) :
    (r.handle key ops).listenFuncs.lookup key' = r.listenFuncs.lookup key' :=
  lookup_foldl_perform hkey hops

theorem called_notMem_events (key : Key) (ops : List (Op H)) :
    Event.called key ∉ ops.map Op.event := by
  intro hmem
  obtain ⟨op, -, hop⟩ := List.mem_map.mp hmem
  cases op <;> cases hop

theorem unregistered_mem_events {key : Key} {ops : List (Op H)} :
    Event.unregistered key ∈ ops.map Op.event ↔ Op.unregister key ∈ ops := by
  constructor
  · intro hmem
    obtain ⟨op, hmem, hop⟩ := List.mem_map.mp hmem
    cases op with
    | unregister key' =>
      cases hop
      exact hmem
    | register _ _ => cases hop
    | stop => cases hop
  · exact fun hmem => List.mem_map.mpr ⟨_, hmem, rfl⟩

/-! ### One round -/

variable {act : H → Key → ℕ → List (Op H)}

/-- No handler of the round unregisters a ready pair whose turn is still to come. -/
def Undisturbed (act : H → Key → ℕ → List (Op H)) (t : Table H) : ℕ → List Key → Prop
  | _, [] => True
  | n, key :: keys =>
    (∀ func ∈ t.lookup key, ∀ later ∈ keys, Op.unregister later ∉ act func key n) ∧
      Undisturbed act t (n + 1) keys

theorem undisturbed_congr {t t' : Table H} {keys : List Key} (n : ℕ)
    (h : ∀ key ∈ keys, t'.lookup key = t.lookup key) :
    Undisturbed act t' n keys ↔ Undisturbed act t n keys := by
  induction keys generalizing n with
  | nil => exact Iff.rfl
  | cons key keys ih =>
    rw [Undisturbed, Undisturbed, ih (n + 1) fun k hk => h k (.tail _ hk),
      h key List.mem_cons_self]

/-- No handler is called for a pair that was unregistered before. -/
def InOrder (trace : List Event) : Prop :=
  trace.Pairwise fun a b => ∀ key, a = .unregistered key → b ≠ .called key

/-- One call keeps the order, if its pair was not unregistered. -/
theorem inOrder_handle {r : Reactor H} {key : Key} (ops : List (Op H)) (h : InOrder r.trace)
    (hkey : Event.unregistered key ∉ r.trace) : InOrder (r.handle key ops).trace := by
  rw [handle_trace, InOrder, List.pairwise_append]
  refine ⟨h, ?_, ?_⟩
  · rw [List.pairwise_cons]
    constructor
    · intro b _ k hk
      cases hk
    · apply List.Pairwise.imp_of_mem (R := fun _ _ => True)
      · rintro a b - hb - k - rfl
        exact called_notMem_events k ops hb
      · exact List.pairwise_of_forall fun _ _ => trivial
  · rintro a ha b hb k rfl rfl
    rcases List.mem_cons.mp hb with hb | hb
    · cases hb
      exact hkey ha
    · exact called_notMem_events k ops hb

/-- With the later pairs left alone, the rest of a round goes through. -/
theorem serve_of_undisturbed {keys : List Key} {n : ℕ} {r : Reactor H}
    (hreg : ∀ key ∈ keys, key ∈ r.listenFuncs) (hun : Undisturbed act r.listenFuncs n keys)
    (horder : InOrder r.trace) (hnot : ∀ key ∈ keys, Event.unregistered key ∉ r.trace) :
    (serve act n keys r).2 = true ∧ InOrder (serve act n keys r).1.trace := by
  induction keys generalizing n r with
  | nil => exact ⟨rfl, horder⟩
  | cons key keys ih =>
    obtain ⟨func, hfunc⟩ := Option.isSome_iff_exists.mp
      (AList.lookup_isSome.mpr (hreg key List.mem_cons_self))
    obtain ⟨hhead, htail⟩ := hun
    have hlater := hhead func hfunc
    have hsame : ∀ k ∈ keys, (r.handle key (act func key n)).listenFuncs.lookup k =
        r.listenFuncs.lookup k :=
      fun k hk => lookup_handle (hreg k (.tail _ hk)) (hlater k hk)
    simp only [serve, hfunc]
    apply ih
    · exact fun k hk => mem_of_lookup_eq (hsame k hk) (hreg k (.tail _ hk))
    · exact (undisturbed_congr (n + 1) hsame).mpr htail
    · exact inOrder_handle _ horder (hnot key List.mem_cons_self)
    · intro k hk hmem
      rw [handle_trace, List.mem_append, List.mem_cons, unregistered_mem_events] at hmem
      rcases hmem with hmem | hmem | hmem
      · exact hnot k (.tail _ hk) hmem
      · cases hmem
      · exact hlater k hk hmem

theorem nodup_of_subperm {t : Table H} {ready : List Key} (h : ready.Subperm t.keys) :
    ready.Nodup := by
  obtain ⟨l, hperm, hsub⟩ := h
  exact hperm.nodup_iff.mp (hsub.nodup t.keys_nodup)

theorem round_ok_of_undisturbed {n : ℕ} {ready : List Key} {r : Reactor H}
    (hready : ready.Subperm r.listenFuncs.keys) (h : Undisturbed act r.listenFuncs n ready) :
    (r.round act n ready).2 = true ∧ InOrder (r.round act n ready).1.trace :=
  serve_of_undisturbed (r := { r with trace := [] })
    (fun _ hmem => AList.mem_keys.mpr (hready.subset hmem)) h .nil fun _ _ => List.not_mem_nil

theorem undisturbed_of_own (hact : ∀ func key n k, Op.unregister k ∈ act func key n → k = key)
    (t : Table H) {keys : List Key} (hnodup : keys.Nodup) (n : ℕ) : Undisturbed act t n keys := by
  induction keys generalizing n with
  | nil => trivial
  | cons key keys ih =>
    obtain ⟨hnot, hnodup⟩ := List.nodup_cons.mp hnodup
    refine ⟨fun func _ later hmem hop => ?_, ih hnodup (n + 1)⟩
    obtain rfl := hact func key n later hop
    exact hnot hmem

/-- If handlers unregister no pair but their own, the loop over the listener of Linux never ends
with an exception of the table, whatever is ready when. -/
theorem run_ok (hact : ∀ func key n k, Op.unregister k ∈ act func key n → k = key)
    (found : List Readiness) (n : ℕ) (r : Reactor H) :
    (run act (found.map fun f => listen (some f)) n r).2 = true := by
  induction found generalizing n r with
  | nil => rfl
  | cons f found ih =>
    rw [List.map_cons, run]
    split_ifs with hrun
    · cases hl : listen (some f) r.listenFuncs.keys with
      | error e => cases hl
      | ok ready =>
        have hready := (listen_sublist hl).subperm
        have hun := undisturbed_of_own hact r.listenFuncs (nodup_of_subperm hready) n
        have hok := ((round_ok_of_undisturbed hready hun)).1
        dsimp only
        rw [hok, if_pos rfl]
        exact ih _ _
    · rfl

end Reactor

end IoTDrive.EventLoop
