import IoTDrive.Lib.Transition
import Mathlib.Data.List.Nodup
import Mathlib.Tactic.SplitIfs

/-! The counter of `UID` under two threads. The NBD reactor increments it for every request
and stores the request under its UID; the minion reactor increments it for every result
that `Ticket::TryComplete` makes, whose UID it overwrites. An increment is a read and a
write back, and the steps of the threads come in any order. The counter does not come
round: there are fewer increments than it has values. -/

namespace IoTDrive.Master.Uids

open Lib

/-- Where the NBD reactor is in `NBDProxy::GetTaskArgs`. -/
inductive Nbd where
  | idle
  /-- between the read and the write back of `s_counter++` -/
  | read (value : ℕ)
  /-- the request has its UID, before the `emplace` into both tables -/
  | given (uid : ℕ)
  deriving DecidableEq, Repr

/-- `s_counter`, the threads, the keys of `m_responses` and `m_requests`. All UIDs of requests
stand in `uids`; `collided` tells that an `emplace` has found its key. -/
structure State where
  counter : ℕ
  nbd : Nbd
  /-- what the minion reactor has read and not written back -/
  minion : Option ℕ
  responses : List ℕ
  requests : List ℕ
  uids : List ℕ
  collided : Bool
  deriving DecidableEq, Repr

inductive Event where
  | nbdRead
  | nbdWrite
  | nbdEmplace
  | minionRead
  | minionWrite
  /-- a request is answered and taken out of the tables -/
  | answered (uid : ℕ)
  deriving DecidableEq, Repr

def init : State := ⟨0, .idle, none, [], [], [], false⟩

/-- `emplace` keeps what is there. -/
def emplace (table : List ℕ) (uid : ℕ) : List ℕ := if uid ∈ table then table else table ++ [uid]

def step (s : State) : Event → Option State
  | .nbdRead =>
    match s.nbd with
    | .idle => some { s with nbd := .read s.counter }
    | _ => none
  | .nbdWrite =>
    match s.nbd with
    | .read v => some { s with counter := v + 1, nbd := .given v, uids := s.uids ++ [v] }
    | _ => none
  | .nbdEmplace =>
    match s.nbd with
    | .given uid =>
      some { s with
        nbd := .idle
        responses := emplace s.responses uid
        requests := emplace s.requests uid
        collided := s.collided || decide (uid ∈ s.responses ∨ uid ∈ s.requests) }
    | _ => none
  | .minionRead =>
    match s.minion with
    | none => some { s with minion := some s.counter }
    | some _ => none
  | .minionWrite =>
    match s.minion with
    | some v => some { s with counter := v + 1, minion := none }
    | none => none
  | .answered uid =>
    some { s with
      responses := s.responses.filter fun u => u ≠ uid
      requests := s.requests.filter fun u => u ≠ uid }

/-- No two requests have one UID, and no `emplace` has found its key. -/
structure Distinct (s : State) : Prop where
  nodup : s.uids.Nodup
  not_collided : s.collided = false

/-- The minion reactor writes back while the NBD reactor is between a read and a write of its
own, or what it has read is no smaller than any UID of a request. -/
def Fresh (s : State) : Event → Prop
  | .minionWrite => (∃ w, s.nbd = .read w) ∨ ∀ v ∈ s.minion, ∀ uid ∈ s.uids, uid ≤ v
  | _ => True

/-! ### The invariant -/

/-- What the next request will get, if the minion reactor does not interfere. -/
def State.next (s : State) : ℕ :=
  match s.nbd with
  | .read w => w
  | _ => s.counter

/-- The next UID is above all there are, and the tables have some of those. -/
structure Sound (s : State) : Prop where
  distinct : Distinct s
  below : ∀ uid ∈ s.uids, uid < s.next
  given_mem : ∀ uid, s.nbd = .given uid → uid ∈ s.uids
  responses_sub : ∀ uid ∈ s.responses, uid ∈ s.uids ∧ s.nbd ≠ .given uid
  requests_sub : ∀ uid ∈ s.requests, uid ∈ s.uids ∧ s.nbd ≠ .given uid

section Step
variable {s s' : State}

theorem mem_emplace {table : List ℕ} {uid u : ℕ} (h : u ∈ emplace table uid) :
    u ∈ table ∨ u = uid := by
  unfold emplace at h
  split_ifs at h
  · exact .inl h
  · simpa using h

theorem init_sound : Sound init where
  distinct := ⟨.nil, rfl⟩
  below := by simp [init]
  given_mem := by simp [init]
  responses_sub := by simp [init]
  requests_sub := by simp [init]

theorem Sound.nbdRead (h : Sound s) (hidle : s.nbd = .idle) :
    Sound { s with nbd := .read s.counter } := by
  have hbelow := h.below
  rw [State.next, hidle] at hbelow
  exact ⟨⟨h.distinct.nodup, h.distinct.not_collided⟩, hbelow, by simp,
    fun u hu => ⟨(h.responses_sub u hu).1, by simp⟩,
    fun u hu => ⟨(h.requests_sub u hu).1, by simp⟩⟩

theorem Sound.nbdWrite (h : Sound s) {v : ℕ} (hread : s.nbd = .read v) :
    Sound { s with counter := v + 1, nbd := .given v, uids := s.uids ++ [v] } := by
  have hbelow := h.below
  rw [State.next, hread] at hbelow
  have hnew : v ∉ s.uids := fun hmem => Nat.lt_irrefl v (hbelow v hmem)
  have hother : ∀ u ∈ s.uids, u ∈ s.uids ++ [v] ∧ Nbd.given v ≠ Nbd.given u := by
    intro u hu
    refine ⟨List.mem_append_left _ hu, fun heq => hnew ?_⟩
    rw [Nbd.given.inj heq]
    exact hu
  constructor
  case distinct =>
    refine ⟨?_, h.distinct.not_collided⟩
    rw [List.nodup_append]
    refine ⟨h.distinct.nodup, List.pairwise_singleton _ v, fun a ha b hb hab => hnew ?_⟩
    rw [List.mem_singleton.mp hb] at hab
    exact hab ▸ ha
  case below =>
    intro u hu
    change u < v + 1
    rcases List.mem_append.mp hu with hu | hu
    · exact Nat.lt_succ_of_lt (hbelow u hu)
    · rw [List.mem_singleton.mp hu]
      exact Nat.lt_succ_self v
  case given_mem =>
    intro u hu
    rw [← Nbd.given.inj hu]
    simp
  case responses_sub => exact fun u hu => hother u (h.responses_sub u hu).1
  case requests_sub => exact fun u hu => hother u (h.requests_sub u hu).1

theorem Sound.nbdEmplace (h : Sound s) {uid : ℕ} (hgiven : s.nbd = .given uid) :
    Sound { s with
      nbd := .idle
      responses := emplace s.responses uid
      requests := emplace s.requests uid
      collided := s.collided || decide (uid ∈ s.responses ∨ uid ∈ s.requests) } := by
  have hbelow := h.below
  rw [State.next, hgiven] at hbelow
  have hmem := h.given_mem uid hgiven
  have hresponses : uid ∉ s.responses := fun hu => (h.responses_sub uid hu).2 hgiven
  have hrequests : uid ∉ s.requests := fun hu => (h.requests_sub uid hu).2 hgiven
  have htable : ∀ table : List ℕ, (∀ u ∈ table, u ∈ s.uids) →
      ∀ u ∈ emplace table uid, u ∈ s.uids ∧ Nbd.idle ≠ Nbd.given u := by
    intro table hsub u hu
    refine ⟨?_, by simp⟩
    rcases mem_emplace hu with hu | rfl
    · exact hsub u hu
    · exact hmem
  constructor
  case distinct =>
    exact ⟨h.distinct.nodup, by simp [h.distinct.not_collided, hresponses, hrequests]⟩
  case below => exact hbelow
  case given_mem => simp
  case responses_sub => exact htable s.responses fun u hu => (h.responses_sub u hu).1
  case requests_sub => exact htable s.requests fun u hu => (h.requests_sub u hu).1

theorem Sound.minionWrite (h : Sound s) {v : ℕ} (hread : s.minion = some v)
    (hfresh : Fresh s .minionWrite) : Sound { s with counter := v + 1, minion := none } := by
  refine ⟨⟨h.distinct.nodup, h.distinct.not_collided⟩, fun u hu => ?_, h.given_mem,
    h.responses_sub, h.requests_sub⟩
  have hbelow := h.below u hu
  rcases hfresh with ⟨w, hw⟩ | hle
  · -- the write of the NBD reactor is still to come
    rw [State.next, hw] at hbelow
    change u < (match s.nbd with | .read w => w | _ => v + 1)
    rw [hw]
    exact hbelow
  · have hlt : u < v + 1 := Nat.lt_succ_of_le (hle v hread u hu)
    change u < (match s.nbd with | .read w => w | _ => v + 1)
    cases hnbd : s.nbd with
    | read w =>
      rw [State.next, hnbd] at hbelow
      exact hbelow
    | idle => exact hlt
    | given uid => exact hlt

theorem step_sound {e : Event} (hfresh : Fresh s e) (hst : step s e = some s') (h : Sound s) :
    Sound s' := by
  cases e with
  | nbdRead =>
    simp only [step] at hst
    split at hst
    · next hidle => exact Option.some.inj hst ▸ h.nbdRead hidle
    · cases hst
  | nbdWrite =>
    simp only [step] at hst
    split at hst
    · next v hread => exact Option.some.inj hst ▸ h.nbdWrite hread
    · cases hst
  | nbdEmplace =>
    simp only [step] at hst
    split at hst
    · next uid hgiven => exact Option.some.inj hst ▸ h.nbdEmplace hgiven
    · cases hst
  | minionRead =>
    simp only [step] at hst
    split at hst
    · obtain rfl := Option.some.inj hst
      exact ⟨⟨h.distinct.nodup, h.distinct.not_collided⟩, h.below, h.given_mem, h.responses_sub,
        h.requests_sub⟩
    · cases hst
  | minionWrite =>
    simp only [step] at hst
    split at hst
    · next v hread => exact Option.some.inj hst ▸ h.minionWrite hread hfresh
    · cases hst
  | answered uid =>
    obtain rfl := Option.some.inj hst
    exact ⟨⟨h.distinct.nodup, h.distinct.not_collided⟩, h.below, h.given_mem,
      fun u hu => h.responses_sub u (List.mem_filter.mp hu).1,
      fun u hu => h.requests_sub u (List.mem_filter.mp hu).1⟩

/-! ### After a late write -/

/-- One request after another, undisturbed. -/
def requests : ℕ → List Event
  | 0 => []
  | n + 1 => .nbdRead :: .nbdWrite :: .nbdEmplace :: requests n

theorem run_requests (n : ℕ) (hidle : s.nbd = .idle) :
    ∃ s', run step (fun _ _ => True) (requests n) s = some s' ∧ s'.nbd = .idle ∧
      s'.counter = s.counter + n ∧ ∀ u ∈ s.uids, u ∈ s'.uids := by
  induction n generalizing s with
  | zero => exact ⟨s, rfl, hidle, rfl, fun _ hu => hu⟩
  | succ n ih =>
    let s₁ : State := { s with nbd := .read s.counter }
    let s₂ : State :=
      { s₁ with
        counter := s.counter + 1
        nbd := .given s.counter
        uids := s.uids ++ [s.counter] }
    have h₁ : step s .nbdRead = some s₁ := by rw [step, hidle]
    have h₂ : step s₁ .nbdWrite = some s₂ := rfl
    obtain ⟨s', hrun, hidle', hcounter, hsub⟩ := ih (s := { s₂ with
      nbd := .idle
      responses := emplace s₂.responses s.counter
      requests := emplace s₂.requests s.counter
      collided := s₂.collided || decide (s.counter ∈ s₂.responses ∨ s.counter ∈ s₂.requests) }) rfl
    refine ⟨s', ?_, hidle', ?_, fun u hu => hsub u (List.mem_append_left _ hu)⟩
    · exact run_cons.mpr ⟨trivial, s₁, h₁, run_cons.mpr ⟨trivial, s₂, h₂,
        run_cons.mpr ⟨trivial, _, rfl, hrun⟩⟩⟩
    · rw [hcounter]
      change s.counter + 1 + n = s.counter + (n + 1)
      omega

/-- Below a UID that is taken, requests soon get it again. -/
theorem duplicate_of_le {uid : ℕ} (hidle : s.nbd = .idle) (hmem : uid ∈ s.uids)
    (hle : s.counter ≤ uid) : ∃ es s', run step (fun _ _ => True) es s = some s' ∧
      ¬ s'.uids.Nodup := by
  obtain ⟨m, hrun, hidle', hcounter, hsub⟩ := run_requests (uid - s.counter) hidle
  have hm : m.counter = uid := by omega
  let m₁ : State := { m with nbd := .read m.counter }
  have h₁ : step m .nbdRead = some m₁ := by rw [step, hidle']
  refine ⟨requests (uid - s.counter) ++ [.nbdRead] ++ [.nbdWrite], _,
    run_snoc (run_snoc hrun trivial h₁) trivial rfl, fun hnodup => ?_⟩
  exact (List.nodup_append.mp hnodup).2.2 uid (hsub uid hmem) m.counter (by simp) hm.symm

theorem duplicate_of_stale {e : Event} (hst : step s e = some s') (hstale : ¬ Fresh s e) :
    ∃ es s'', run step (fun _ _ => True) es s' = some s'' ∧ ¬ s''.uids.Nodup := by
  cases e with
  | minionWrite =>
    simp only [step] at hst
    split at hst
    · next v hread =>
      obtain rfl := Option.some.inj hst
      simp only [Fresh, hread, not_or, not_exists, Option.mem_some_iff, forall_eq'] at hstale
      obtain ⟨hnot, hlarge⟩ := hstale
      obtain ⟨uid, hmem, hle⟩ : ∃ uid ∈ s.uids, v + 1 ≤ uid := by
        by_contra hnone
        exact hlarge fun uid hmem => Nat.le_of_not_lt fun hlt => hnone ⟨uid, hmem, hlt⟩
      cases hnbd : s.nbd with
      | idle =>
        exact duplicate_of_le (s := { s with counter := v + 1, minion := none, nbd := .idle }) rfl
          hmem hle
      | read w => exact absurd hnbd (hnot w)
      | given w =>
        -- the request in hand is stored first
        obtain ⟨es, s'', hrun, hdup⟩ := duplicate_of_le (s := { s with
          counter := v + 1
          minion := none
          nbd := .idle
          responses := emplace s.responses w
          requests := emplace s.requests w
          collided := s.collided || decide (w ∈ s.responses ∨ w ∈ s.requests) }) rfl hmem hle
        refine ⟨.nbdEmplace :: es, s'', run_cons.mpr ⟨trivial, _, ?_, hrun⟩, hdup⟩
        simp [step]
    · cases hst
  | _ => exact absurd trivial hstale

end Step

/-- The UIDs of the requests are distinct and every request is stored, as long as the minion
reactor writes back only while the NBD reactor is to write itself, or a value above all
UIDs given; after any other write back requests can follow that get one UID twice. -/
theorem uids_distinct (es : List Event) :
    (Obeys step Fresh es init → Always step Distinct es init) ∧
      ∀ (e : Event) (s s' : State), run step (fun _ _ => True) es init = some s →
        step s e = some s' → ¬ Fresh s e →
          ∃ es' s'', run step (fun _ _ => True) es' s' = some s'' ∧ ¬ s''.uids.Nodup := by
  constructor
  · intro h
    exact (always_of_obeys (fun _ _ _ hfresh hst hs => step_sound hfresh hst hs) h
      init_sound).imp fun _ hs => hs.distinct
  · exact fun _ _ _ _ hst hstale => duplicate_of_stale hst hstale

/-- The result of request 0 is made while requests 1 and 2 come in. -/
def staleWrite : List Event :=
  [.nbdRead, .nbdWrite, .nbdEmplace, .minionRead, .nbdRead, .nbdWrite, .nbdEmplace, .nbdRead,
    .nbdWrite, .nbdEmplace, .minionWrite, .nbdRead, .nbdWrite, .nbdEmplace]

theorem uids_collide :
    (run step (fun _ _ => True) staleWrite init).map (fun s => (s.uids, s.collided)) =
        some ([0, 1, 2, 2], true) ∧
      ¬ Always step Distinct staleWrite init := by
  have hrun : (run step (fun _ _ => True) staleWrite init).map
      (fun s => (s.uids, s.collided)) = some ([0, 1, 2, 2], true) := by decide
  refine ⟨hrun, fun h => ?_⟩
  obtain ⟨s, hs, hvalue⟩ := Option.map_eq_some_iff.mp hrun
  have hgood := (h.run hs).not_collided
  rw [(Prod.mk.inj hvalue).2] at hgood
  cases hgood

/-- The result is made while only one other request comes in. -/
def timelyWrite : List Event :=
  [.nbdRead, .nbdWrite, .nbdEmplace, .minionRead, .nbdRead, .minionWrite, .nbdWrite, .nbdEmplace,
    .answered 0, .nbdRead, .nbdWrite, .nbdEmplace]

theorem uids_distinct_timely : Always step Distinct timelyWrite init ∧
    (run step (fun _ _ => True) timelyWrite init).map State.uids = some [0, 1, 2] := by
  refine ⟨(uids_distinct timelyWrite).1 ?_, by decide⟩
  simp [timelyWrite, Obeys, step, Fresh, init]

end IoTDrive.Master.Uids
