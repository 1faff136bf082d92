import IoTDrive.Master.Replies
import IoTDrive.Minion.Commands

/-! The whole drive: one master, the minions with their files, and the datagrams between
them. Any datagram in flight may be the next to arrive, so the network delays and
reorders at will. Further actions let it lose datagrams or deliver foreign ones, let
a file change behind the minion's back, and restart a minion process on its file. A
minion executes a datagram in one step. Where the source has no defined behaviour, or
a process ends, there is no next state. -/

namespace IoTDrive.System

open Lib Message Minion Stripe Master

/-- `executed` lists the tasks that the minions have run, oldest first; no one reads it. -/
structure Sys where
  master : MasterState
  toMinion : List Packet
  toMaster : List Packet
  files : ℕ → FileManager
  executed : List (ℕ × MinionArgs)

inductive Action where
  | getTaskArgs (req : Request) (uid : UID)
  | advance (j : ℕ) (sendOk : Bool) (beyond : ℕ → UInt8)
  | execute (i : ℕ) (stack heap : ℕ → UInt8)
  | answer (i : ℕ) (stack : ℕ → UInt8)
  | loseRequest (i : ℕ)
  | loseAnswer (i : ℕ)
  | injectRequest (m : ℕ) (d : List UInt8)
  | injectAnswer (m : ℕ) (d : List UInt8)
  | disk (m : ℕ) (f : FileManager)
  | restart (m : ℕ)

namespace Sys

/-- All files are new. -/
def init (M : MinionManager) : Sys :=
  ⟨MasterState.init, [], [], fun _ => FileManager.init [] M.mbMinion M.mb_pos, []⟩

/-- The task a minion makes of a datagram, if any. -/
def taskOf (stack : ℕ → UInt8) (p : Packet) : List (ℕ × MinionArgs) :=
  match getTaskArgs stack p.bytes with
  | .args a => [(p.minion, a)]
  | _ => []

/-- The minion takes the `i`-th request datagram off the network and serves it. -/
def execute (s : Sys) (i : ℕ) (stack heap : ℕ → UInt8) : Option Sys := do
  let p ← s.toMinion[i]?
  let (f, a) ← serve stack heap (s.files p.minion) p.bytes
  return { s with
    toMinion := s.toMinion.eraseIdx i
    toMaster := s.toMaster ++ (a.map fun d => ⟨p.minion, p.origin, d⟩).toList
    files := Function.update s.files p.minion f
    executed := s.executed ++ taskOf stack p }

/-- The `i`-th answer datagram wakes up its proxy. -/
def answer (s : Sys) (i : ℕ) (stack : ℕ → UInt8) : Option Sys := do
  let p ← s.toMaster[i]?
  let master ← s.master.wakeUp p.minion stack p.bytes
  return { s with master := master, toMaster := s.toMaster.eraseIdx i }

def step (M : MinionManager) (s : Sys) : Action → Option Sys
  | .getTaskArgs req uid => some { s with master := s.master.getTaskArgs req uid }
  | .advance j sendOk beyond =>
    (s.master.advance M j sendOk beyond).map fun r =>
      { s with master := r.1, toMinion := s.toMinion ++ r.2.toList }
  | .execute i stack heap => s.execute i stack heap
  | .answer i stack => s.answer i stack
  | .loseRequest i => some { s with toMinion := s.toMinion.eraseIdx i }
  | .loseAnswer i => some { s with toMaster := s.toMaster.eraseIdx i }
  | .injectRequest m d => some { s with toMinion := s.toMinion ++ [⟨m, none, d⟩] }
  | .injectAnswer m d => some { s with toMaster := s.toMaster ++ [⟨m, none, d⟩] }
  | .disk m f => some { s with files := Function.update s.files m f }
  | .restart m =>
    some { s with
      files := Function.update s.files m
        (FileManager.init (s.files m).content M.mbMinion M.mb_pos) }

/-- The request that an action brings. -/
def newRequest : Action → List (UID × Request)
  | .getTaskArgs req uid => [(uid, req)]
  | _ => []

/-- The UID of a new request is not that of a pending one. -/
def PendingDistinct (s : Sys) : Action → Prop
  | .getTaskArgs _ uid => ∀ job ∈ s.master.jobs, job.uid = uid → job.completed = true
  | _ => True

variable {M : MinionManager} {s s' : Sys}

/-- What the drive does at the master is a step of the master, or nothing. -/
theorem step_master {a : Action} (h : step M s a = some s') :
    s'.master = s.master ∧ newRequest a = [] ∨ ∃ b, b.newRequest = newRequest a ∧
      (PendingDistinct s a → MasterState.PendingDistinct s.master b) ∧
      MasterState.step M s.master b = some s'.master := by
  cases a with
  | getTaskArgs req uid =>
    obtain rfl := Option.some.inj h
    exact .inr ⟨.getTaskArgs req uid, rfl, id, rfl⟩
  | advance j sendOk beyond =>
    obtain ⟨r, hr, rfl⟩ := Option.map_eq_some_iff.mp h
    exact .inr ⟨.advance j sendOk beyond, rfl, id, by simp [MasterState.step, hr]⟩
  | execute i stack heap =>
    simp only [step, execute, Option.bind_eq_bind, Option.bind_eq_some_iff, Option.pure_def,
      Option.some.injEq] at h
    obtain ⟨p, -, r, -, rfl⟩ := h
    exact .inl ⟨rfl, rfl⟩
  | answer i stack =>
    simp only [step, answer, Option.bind_eq_bind, Option.bind_eq_some_iff, Option.pure_def,
      Option.some.injEq] at h
    obtain ⟨p, -, master, hm, rfl⟩ := h
    exact .inr ⟨.wakeUp p.minion stack p.bytes, rfl, id, hm⟩
  | loseRequest i => obtain rfl := Option.some.inj h; exact .inl ⟨rfl, rfl⟩
  | loseAnswer i => obtain rfl := Option.some.inj h; exact .inl ⟨rfl, rfl⟩
  | injectRequest m d => obtain rfl := Option.some.inj h; exact .inl ⟨rfl, rfl⟩
  | injectAnswer m d => obtain rfl := Option.some.inj h; exact .inl ⟨rfl, rfl⟩
  | disk m f => obtain rfl := Option.some.inj h; exact .inl ⟨rfl, rfl⟩
  | restart m => obtain rfl := Option.some.inj h; exact .inl ⟨rfl, rfl⟩

theorem step_history {a : Action} (h : step M s a = some s') :
    s'.master.history = s.master.history ++ newRequest a := by
  rcases step_master h with ⟨he, hn⟩ | ⟨b, hb, -, hst⟩
  · rw [he, hn, List.append_nil]
  · rw [MasterState.step_history hst, hb]

/-- The requests so far, oldest first. -/
def requests (s : Sys) : List Request := s.master.history.map Prod.snd

theorem step_requests {a : Action} (h : step M s a = some s') :
    s'.requests = s.requests ++ (newRequest a).map Prod.snd := by
  rw [requests, step_history h, List.map_append]
  rfl

theorem requests_getElem? (s : Sys) (j : ℕ) :
    s.requests[j]? = (s.master.jobs[j]?).map Job.req := by
  simp [requests, MasterState.history, List.getElem?_map, Function.comp_def]

theorem requests_eq_some {j : ℕ} {job : Job} (hj : s.master.jobs[j]? = some job) :
    s.requests[j]? = some job.req := by
  rw [requests_getElem?, hj, Option.map_some]

/-- A job that goes on is for the same request. -/
theorem requests_set {j : ℕ} {job job' : Job} (hj : s.master.jobs[j]? = some job)
    (hjobs : s'.master.jobs = s.master.jobs.set j job') (hu : job'.uid = job.uid)
    (hr : job'.req = job.req) : s'.requests = s.requests := by
  simp only [requests, MasterState.history, hjobs]
  rw [MasterState.history_set hj hu hr]
  rfl

theorem requests_length (s : Sys) : s.requests.length = s.master.jobs.length := by
  simp [requests, MasterState.history]

/-- The master's invariant along a step of the drive. -/
theorem step_masterInv {a : Action} (h : step M s a = some s') (hg : PendingDistinct s a)
    (hs : s.master.Inv) : s'.master.Inv := by
  rcases step_master h with ⟨he, -⟩ | ⟨b, -, hb, hst⟩
  · rw [he]
    exact hs
  · exact MasterState.step_inv (hb hg) hst hs

end Sys

end IoTDrive.System
