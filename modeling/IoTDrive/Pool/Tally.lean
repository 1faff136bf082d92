import IoTDrive.Lib.Counting
import IoTDrive.Pool.Ids
import Mathlib.Tactic.Convert

/-! The pool by numbers. How many workers are where, how many of the pool's own tasks are
queued and where the controlling thread is: every step of the pool is a step of these
counters, and what pausing and resizing do to each other is decided by them. -/

namespace IoTDrive.Pool

open Lib

namespace Ctl

/-- Threads that the call in progress has still to make. -/
def spawns : Ctl → ℕ
  | growing left _ | popping left _ | spawning left _ => left
  | joining _ left _ | discarding _ left _ => left
  | _ => 0

/-- End tasks that the call in progress has still to push. -/
def stops : Ctl → ℕ
  | ending left _ | destroying left => left
  | _ => 0

/-- The size that the call in progress leads to. -/
def goal (total : ℕ) : Ctl → ℕ
  | ending _ target | growing _ target | popping _ target | spawning _ target => target
  | joining _ _ target | discarding _ _ target => target
  | destroying _ | joinAll | destroyed => 0
  | idle | pausing _ | acquiring _ | threw => total

/-- Pause tasks that the `Pause` in progress has pushed. -/
def pushed (total : ℕ) : Ctl → ℕ
  | pausing i => i
  | acquiring _ => total
  | _ => 0

/-- Acquisitions of the `Pause` in progress. -/
def acquired : Ctl → ℕ
  | acquiring i => i
  | _ => 0

def inPause : Ctl → Bool
  | pausing _ | acquiring _ => true
  | _ => false

end Ctl

@[ext] structure Tally where
  live : ℕ
  waiting : ℕ
  unstarted : ℕ
  held : ℕ
  ends : ℕ
  pauses : ℕ
  sem : ℕ
  total : ℕ
  paused : Bool
  frozen : Bool
  ctl : Ctl

def State.tally (s : State) : Tally where
  live := s.live
  waiting := s.waiting
  unstarted := s.unstarted
  held := s.held
  ends := s.ends
  pauses := s.pauses
  sem := s.pauseSem
  total := s.totalThreads
  paused := s.paused
  frozen := s.frozen
  ctl := s.ctl

namespace Tally

/-- Some worker is in `Pop`. -/
def Room (t : Tally) : Prop := t.waiting + t.unstarted + t.held < t.live

/-- The steps of the counters. -/
inductive Move (t : Tally) : Event → Tally → Prop where
  | popUser (i k : ℕ) (hroom : t.Room) (hends : t.ends = 0) (hpauses : t.pauses = 0) :
    Move t (.pop i k) { t with unstarted := t.unstarted + 1 }
  | popPause (i k : ℕ) (hroom : t.Room) (hpauses : 0 < t.pauses) :
    Move t (.pop i k) { t with pauses := t.pauses - 1, held := t.held + 1 }
  | popEnd (i k : ℕ) (hroom : t.Room) (hends : 0 < t.ends) :
    Move t (.pop i k) { t with ends := t.ends - 1, live := t.live - 1 }
  | begins (i : ℕ) (h : 0 < t.unstarted) :
    Move t (.advance i) { t with unstarted := t.unstarted - 1 }
  | parks (i : ℕ) (h : 0 < t.held) (hp : t.paused = true) :
    Move t (.advance i) { t with held := t.held - 1, sem := t.sem + 1, waiting := t.waiting + 1 }
  | passes (i : ℕ) (h : 0 < t.held) (hp : t.paused = false) :
    Move t (.advance i) { t with held := t.held - 1, sem := t.sem + 1 }
  | wakes (i : ℕ) (h : 0 < t.waiting) (hp : t.paused = false) :
    Move t (.advance i) { t with waiting := t.waiting - 1 }
  | goesOn (i : ℕ) : Move t (.advance i) t
  | pushPause (now i : ℕ) (hctl : t.ctl = .pausing i) (hi : i < t.total) :
    Move t (.control now) { t with pauses := t.pauses + 1, ctl := .pausing (i + 1) }
  | pushed (now i : ℕ) (hctl : t.ctl = .pausing i) (hi : ¬ i < t.total) :
    Move t (.control now) { t with ctl := .acquiring 0 }
  | acquire (now i : ℕ) (hctl : t.ctl = .acquiring i) (hi : i < t.total) (hsem : 0 < t.sem) :
    Move t (.control now) { t with sem := t.sem - 1, ctl := .acquiring (i + 1) }
  | pauseReturns (now i : ℕ) (hctl : t.ctl = .acquiring i) (hi : ¬ i < t.total) :
    Move t (.control now) { t with ctl := .idle, frozen := true }
  | pushEnd (now left target : ℕ) (hctl : t.ctl = .ending (left + 1) target) :
    Move t (.control now) { t with ends := t.ends + 1, ctl := .ending left target }
  | ended (now target : ℕ) (hctl : t.ctl = .ending 0 target) :
    Move t (.control now) { t with total := target, ctl := .idle }
  | seeDeleted (now left target : ℕ) (hctl : t.ctl = .growing left target) :
    Move t (.control now) { t with ctl := .popping left target }
  | seeNone (now left target : ℕ) (hctl : t.ctl = .growing left target) :
    Move t (.control now) { t with ctl := .spawning left target }
  | recycle (now w left target : ℕ) (hctl : t.ctl = .popping (left + 1) target) :
    Move t (.control now) { t with live := t.live + 1, ctl := .joining w left target }
  | joined (now w left target : ℕ) (hctl : t.ctl = .joining w left target) :
    Move t (.control now) { t with ctl := .growing left target }
  | emplace (now left target : ℕ) (hctl : t.ctl = .spawning (left + 1) target) :
    Move t (.control now) { t with live := t.live + 1, ctl := .spawning left target }
  | spawned (now target : ℕ) (hctl : t.ctl = .spawning 0 target) :
    Move t (.control now) { t with total := target, ctl := .idle }
  | pushLast (now left : ℕ) (hctl : t.ctl = .destroying (left + 1)) :
    Move t (.control now) { t with ends := t.ends + 1, ctl := .destroying left }
  | pushedLast (now : ℕ) (hctl : t.ctl = .destroying 0) :
    Move t (.control now) { t with ctl := .joinAll }
  | allJoined (now : ℕ) (hctl : t.ctl = .joinAll) :
    Move t (.control now) { t with ctl := .destroyed }
  | addTask (id : ℕ) (pr : Priority) (now : ℕ) : Move t (.call (.addTask id pr now)) t
  | pause (hctl : t.ctl = .idle) :
    Move t (.call .pause) { t with paused := true, ctl := .pausing 0 }
  | resume (hctl : t.ctl = .idle) : Move t (.call .resume) { t with paused := false, frozen := false }
  | grow (n : ℕ) (hctl : t.ctl = .idle) (hn : t.total < n) :
    Move t (.call (.setNumThreads n)) { t with ctl := .growing (n - t.total) n }
  | shrink (n : ℕ) (hctl : t.ctl = .idle) (hn : ¬ t.total < n) :
    Move t (.call (.setNumThreads n)) { t with ctl := .ending (t.total - n) n }
  | destroy (hctl : t.ctl = .idle) : Move t (.call .destroy) { t with ctl := .destroying t.total }

end Tally

/-! ### The counters follow the pool -/

namespace State

variable {s s' u : State} {i k : ℕ} {w : Worker} {p : Phase} {t : TPTask}

/-- A worker moves from one place to another. -/
theorem counts_setPhase (hs : u.workers = (s.setPhase i p).workers)
    (hw : s.workers[i]? = some w) :
    u.live + one w.phase.live = s.live + one p.live ∧
      u.waiting + one w.phase.isWaiting = s.waiting + one p.isWaiting ∧
      u.unstarted + one w.phase.unstarted = s.unstarted + one p.unstarted ∧
      u.held + one w.phase.holdsPause = s.held + one p.holdsPause := by
  simp only [live, waiting, unstarted, held, hs, setPhase]
  exact ⟨countP_modify_add _ hw, countP_modify_add _ hw, countP_modify_add _ hw,
    countP_modify_add _ hw⟩

/-- A worker is made. -/
theorem counts_spawn {id : ℕ} (hs : u.workers = (s.spawn id).workers) :
    u.live = s.live + 1 ∧ u.waiting = s.waiting ∧ u.unstarted = s.unstarted ∧
      u.held = s.held := by
  simp [live, waiting, unstarted, held, hs, spawn, Phase.live, Phase.isWaiting, Phase.unstarted,
    Phase.holdsPause]

theorem counts_push (hs : u.pq = (s.push t).pq) :
    u.ends = s.ends + one (t.task == .endThreadTask) ∧
      u.pauses = s.pauses + one (t.task == .pauseThreadTask) := by
  simp [ends, pauses, hs, push, one, List.countP_cons]

theorem counts_eraseIdx (hs : u.pq = s.pq.eraseIdx k) (ht : s.pq[k]? = some t) :
    u.ends + one (t.task == .endThreadTask) = s.ends ∧
      u.pauses + one (t.task == .pauseThreadTask) = s.pauses := by
  simp only [ends, pauses, hs]
  exact ⟨countP_eraseIdx_add ht, countP_eraseIdx_add ht⟩

theorem counts_resume : s.resume.live = s.live ∧ s.resume.waiting = s.waiting ∧
    s.resume.unstarted = s.unstarted ∧ s.resume.held = s.held := by
  have hn : ∀ (f : Phase → Bool), (∀ p, f p.notify = f p) →
      (s.resume.workers.countP fun w => f w.phase) = s.workers.countP fun w => f w.phase := by
    intro f hf
    simp [resume, List.countP_map, Function.comp_def, hf]
  exact ⟨hn _ fun p => by cases p <;> rfl, hn _ fun p => by cases p <;> rfl,
    hn _ fun p => by cases p <;> rfl, hn _ fun p => by cases p <;> rfl⟩

/-- The places of a worker that stays exclude each other. -/
theorem waiting_add_le (s : State) :
    s.waiting + s.unstarted + s.held + (s.workers.countP fun w => w.phase.inPop) ≤ s.live := by
  have hsplit : ∀ p : Phase, one p.isWaiting + one p.unstarted ≤ one (p.isWaiting || p.unstarted) ∧
      one p.holdsPause + one p.inPop ≤ one (p.holdsPause || p.inPop) ∧
      one (p.isWaiting || p.unstarted) + one (p.holdsPause || p.inPop) ≤ one p.live := by
    rintro (_ | (_ | _ | _) | _ | _ | _ | _ | _) <;>
      simp [Phase.isWaiting, Phase.unstarted, Phase.holdsPause, Phase.live, Phase.inPop]
  have h1 := countP_add_le (l := s.workers) fun w => (hsplit w.phase).1
  have h2 := countP_add_le (l := s.workers) fun w => (hsplit w.phase).2.1
  have h3 := countP_add_le (l := s.workers) fun w => (hsplit w.phase).2.2
  simp only [waiting, unstarted, held, live]
  omega

theorem room_of_loop (hw : s.workers[i]? = some w) (hp : w.phase = .loop) : s.tally.Room := by
  have hpos : 0 < s.workers.countP fun w => w.phase.inPop :=
    List.countP_pos_iff.mpr ⟨w, List.mem_of_getElem? hw, by simp [hp, Phase.inPop]⟩
  have hle := s.waiting_add_le
  simp only [Tally.Room, tally]
  omega

/-- A submitted task is at the top only if no task of the pool's own is queued. -/
theorem no_critical (htop : ∀ u ∈ s.pq, ¬ t.Less u) (ht : t.task.isUser = true) :
    s.ends = 0 ∧ s.pauses = 0 := by
  have huser : t.priority.value < InnerPriority.critical.value := by
    have hne : t.priority ≠ .critical := fun h => by simp [t.ranked.mp h] at ht
    cases hp : t.priority <;> simp_all [InnerPriority.value]
  have hnone : ∀ u ∈ s.pq, u.task.isUser = true := by
    intro u hu
    by_contra hn
    have hu' := u.ranked.mpr (by simpa using hn)
    exact htop u hu (.inr (hu' ▸ huser))
  constructor
  · refine List.countP_eq_zero.mpr fun u hu h => ?_
    simpa [beq_iff_eq.mp h, Job.isUser] using hnone u hu
  · refine List.countP_eq_zero.mpr fun u hu h => ?_
    simpa [beq_iff_eq.mp h, Job.isUser] using hnone u hu

/-- A worker moves between two places that no counter tells apart. -/
theorem tally_setPhase (hs : u.workers = (s.setPhase i p).workers)
    (hw : s.workers[i]? = some w) (hsame : (w.phase.live, w.phase.isWaiting, w.phase.unstarted,
      w.phase.holdsPause) = (p.live, p.isWaiting, p.unstarted, p.holdsPause))
    (hrest : { u.tally with live := 0, waiting := 0, unstarted := 0, held := 0 } =
      { s.tally with live := 0, waiting := 0, unstarted := 0, held := 0 }) :
    u.tally = s.tally := by
  obtain ⟨hl, hwt, hu, hh⟩ := counts_setPhase hs hw
  simp only [Prod.mk.injEq] at hsame
  rw [hsame.1] at hl
  rw [hsame.2.1] at hwt
  rw [hsame.2.2.1] at hu
  rw [hsame.2.2.2] at hh
  simp only [tally, Tally.mk.injEq, true_and] at hrest ⊢
  exact ⟨Nat.add_right_cancel hl, Nat.add_right_cancel hwt, Nat.add_right_cancel hu,
    Nat.add_right_cancel hh, hrest⟩

theorem tally_pauses (hw : s.workers[i]? = some w) (hp : w.phase = .taken .pauseThreadTask) :
    s.tally.Move (.advance i)
      (State.tally { s.setPhase i s.afterWait with pauseSem := s.pauseSem + 1 }) := by
  obtain ⟨hl, hwt, hu, hh⟩ := counts_setPhase
    (u := { s.setPhase i s.afterWait with pauseSem := s.pauseSem + 1 }) rfl hw
  rw [hp] at hl hwt hu hh
  cases hpaused : s.paused with
  | true =>
    have hafter : s.afterWait = .waiting false := by simp [afterWait, hpaused]
    simp only [hafter, Phase.live, Phase.isWaiting, Phase.unstarted, Phase.holdsPause, one_true,
      one_false] at hl hwt hu hh ⊢
    convert Tally.Move.parks (t := s.tally) i (by simp only [tally]; omega) hpaused using 1
    ext <;> simp only [tally] <;> first | omega | rfl
  | false =>
    have hafter : s.afterWait = .loop := by simp [afterWait, hpaused]
    simp only [hafter, Phase.live, Phase.isWaiting, Phase.unstarted, Phase.holdsPause, one_true,
      one_false] at hl hwt hu hh ⊢
    convert Tally.Move.passes (t := s.tally) i (by simp only [tally]; omega) hpaused using 1
    ext <;> simp only [tally] <;> first | omega | rfl

theorem tally_wakes (hw : s.workers[i]? = some w) (hp : w.phase = .waiting true) :
    s.tally.Move (.advance i) (s.setPhase i s.afterWait).tally := by
  cases hpaused : s.paused with
  | true =>
    have hafter : s.afterWait = .waiting false := by simp [afterWait, hpaused]
    rw [hafter, tally_setPhase (s := s) (p := .waiting false) rfl hw (by rw [hp]; rfl) rfl]
    exact .goesOn i
  | false =>
    have hafter : s.afterWait = .loop := by simp [afterWait, hpaused]
    obtain ⟨hl, hwt, hu, hh⟩ := counts_setPhase (s := s) (p := .loop) rfl hw
    simp only [hp, hafter, Phase.live, Phase.isWaiting, Phase.unstarted, Phase.holdsPause, one_true,
      one_false] at hl hwt hu hh ⊢
    convert Tally.Move.wakes (t := s.tally) i (by simp only [tally]; omega) hpaused using 1
    ext <;> simp only [tally] <;> first | omega | rfl

theorem tally_begins {id : ℕ} (hw : s.workers[i]? = some w)
    (hp : w.phase = .taken (.user id)) :
    s.tally.Move (.advance i) (s.setPhase i (.running id)).tally := by
  obtain ⟨hl, hwt, hu, hh⟩ := counts_setPhase (s := s) (p := .running id) rfl hw
  simp only [hp, Phase.live, Phase.isWaiting, Phase.unstarted, Phase.holdsPause, one_true,
    one_false] at hl hwt hu hh
  convert Tally.Move.begins (t := s.tally) i (by simp only [tally]; omega) using 1
  ext <;> simp only [tally] <;> first | omega | rfl

theorem tally_advances (hw : s.workers[i]? = some w) (ha : Advances s i w s') :
    s.tally.Move (.advance i) s'.tally := by
  cases ha with
  | begins id hp => exact tally_begins hw hp
  | pauses hp => exact tally_pauses hw hp
  | wakes hp => exact tally_wakes hw hp
  | ends hp =>
    rw [tally_setPhase (s := s) (p := .left) rfl hw (by rw [hp]; rfl) rfl]
    exact .goesOn i
  | returns id hp =>
    rw [tally_setPhase (s := s) (p := .loop) rfl hw (by rw [hp]; rfl) rfl]
    exact .goesOn i
  | reports hp =>
    convert Tally.Move.goesOn (t := s.tally) i using 1
    exact tally_setPhase (p := .done) rfl hw (by rw [hp]; rfl) rfl
  | exits hp =>
    rw [tally_setPhase (s := s) (p := .exited) rfl hw (by rw [hp]; rfl) rfl]
    exact .goesOn i

theorem tally_pop (hw : s.workers[i]? = some w) (ht : s.pq[k]? = some t) (hp : w.phase = .loop)
    (htop : ∀ u ∈ s.pq, ¬ t.Less u) :
    s.tally.Move (.pop i k)
      (State.tally { s.setPhase i (.taken t.task) with pq := s.pq.eraseIdx k }) := by
  have hroom := room_of_loop hw hp
  obtain ⟨hl, hwt, hu, hh⟩ := counts_setPhase
    (u := { s.setPhase i (.taken t.task) with pq := s.pq.eraseIdx k }) rfl hw
  obtain ⟨he, hpa⟩ := counts_eraseIdx
    (u := { s.setPhase i (.taken t.task) with pq := s.pq.eraseIdx k }) rfl ht
  rw [hp] at hl hwt hu hh
  cases htask : t.task with
  | user id =>
    obtain ⟨hends, hpauses⟩ := no_critical htop (by rw [htask]; rfl)
    simp [htask, Phase.live, Phase.isWaiting, Phase.unstarted, Phase.holdsPause]
      at hl hwt hu hh he hpa
    convert Tally.Move.popUser (t := s.tally) i k hroom hends hpauses using 1
    ext <;> simp only [tally] <;> first | omega | rfl
  | pauseThreadTask =>
    have hother : (Job.pauseThreadTask == Job.endThreadTask) = false := rfl
    simp [htask, hother, Phase.live, Phase.isWaiting, Phase.unstarted, Phase.holdsPause]
      at hl hwt hu hh he hpa
    convert Tally.Move.popPause (t := s.tally) i k hroom (by simp only [tally]; omega) using 1
    ext <;> simp only [tally] <;> first | omega | rfl
  | endThreadTask =>
    have hother : (Job.endThreadTask == Job.pauseThreadTask) = false := rfl
    simp [htask, hother, Phase.live, Phase.isWaiting, Phase.unstarted, Phase.holdsPause]
      at hl hwt hu hh he hpa
    convert Tally.Move.popEnd (t := s.tally) i k hroom (by simp only [tally]; omega) using 1
    ext <;> simp only [tally] <;> first | omega | rfl

theorem tally_controls {now : ℕ} (h : s.Ordered) (hc : Controls s now s') :
    s.tally.Move (.control now) s'.tally := by
  cases hc with
  | pushPause i hctl hi =>
    obtain ⟨he, hpa⟩ := counts_push (s := s) (t := .pauseThread now)
      (u := { s.push (.pauseThread now) with ctl := .pausing (i + 1) }) rfl
    convert Tally.Move.pushPause (t := s.tally) now i hctl hi using 1
    ext <;> simp only [tally] <;> first | exact he | exact hpa | rfl
  | pushed i hctl hi => exact .pushed (t := s.tally) now i hctl hi
  | acquire i hctl hi hsem => exact .acquire (t := s.tally) now i hctl hi hsem
  | pauseReturns i hctl hi => exact .pauseReturns (t := s.tally) now i hctl hi
  | pushEnd left target hctl =>
    obtain ⟨he, hpa⟩ := counts_push (s := s) (t := .endThread now)
      (u := { s.push (.endThread now) with ctl := .ending left target }) rfl
    convert Tally.Move.pushEnd (t := s.tally) now left target hctl using 1
    ext <;> simp only [tally] <;> first | exact he | exact hpa | rfl
  | ended target hctl => exact .ended (t := s.tally) now target hctl
  | seeDeleted left target hctl hc => exact .seeDeleted (t := s.tally) now left target hctl
  | seeNone left target hctl hc => exact .seeNone (t := s.tally) now left target hctl
  | recycle left target id rest hctl hdel =>
    have hready := h.ready
    rw [CtlReady, hctl] at hready
    obtain ⟨left, rfl⟩ := Nat.exists_eq_succ_of_ne_zero (Nat.ne_of_gt hready.2)
    obtain ⟨j, v, hj, -, -⟩ := h.registered.deleted id (by simp [hdel])
    have hs : (s.recycle id rest (left + 1) target).workers = (s.spawn id).workers := by
      simp [State.recycle, hj]
    obtain ⟨hl, hwt, hu, hh⟩ := counts_spawn hs
    convert Tally.Move.recycle (t := s.tally) now j left target hctl using 1
    simp only [State.recycle, hj] at hl hwt hu hh ⊢
    ext <;> simp only [tally] <;> first | assumption | rfl
  | joined w left target hctl hj => exact .joined (t := s.tally) now w left target hctl
  | emplace left target hctl =>
    have hfree := h.registered.fresh s.tid (Nat.le_refl _)
    have hs : (s.emplace left target).workers = (s.spawn s.tid).workers := by
      simp [State.emplace, hfree]
    obtain ⟨hl, hwt, hu, hh⟩ := counts_spawn hs
    convert Tally.Move.emplace (t := s.tally) now left target hctl using 1
    simp only [State.emplace, hfree] at hl hwt hu hh ⊢
    ext <;> simp only [tally] <;> first | assumption | rfl
  | spawned target hctl => exact .spawned (t := s.tally) now target hctl
  | discarded w left target hctl hj =>
    have hready := h.ready
    rw [CtlReady, hctl] at hready
    exact hready.elim
  | pushLast left hctl =>
    obtain ⟨he, hpa⟩ := counts_push (s := s) (t := .endThread now)
      (u := { s.push (.endThread now) with ctl := .destroying left }) rfl
    convert Tally.Move.pushLast (t := s.tally) now left hctl using 1
    ext <;> simp only [tally] <;> first | exact he | exact hpa | rfl
  | pushedLast hctl => exact .pushedLast (t := s.tally) now hctl
  | allJoined hctl hj => exact .allJoined (t := s.tally) now hctl

theorem tally_call (hctl : s.ctl = .idle) (c : Call) : s.tally.Move (.call c) (s.call c).tally := by
  cases c with
  | addTask id pr now =>
    obtain ⟨he, hpa⟩ := counts_push (s := s) (t := .user id pr now)
      (u := s.addTask id pr now) rfl
    convert Tally.Move.addTask (t := s.tally) id pr now using 1
    ext <;> simp only [tally] <;> first | exact he | exact hpa | rfl
  | pause => exact .pause (t := s.tally) hctl
  | resume =>
    obtain ⟨hl, hwt, hu, hh⟩ := counts_resume (s := s)
    convert Tally.Move.resume (t := s.tally) hctl using 1
    ext <;> simp only [tally] <;> first | assumption | rfl
  | setNumThreads n =>
    simp only [State.call, setNumThreads]
    split_ifs with hn
    · exact .grow (t := s.tally) n hctl hn
    · exact .shrink (t := s.tally) n hctl hn
  | destroy => exact .destroy (t := s.tally) hctl

end State

/-- Every step of the pool is a step of the counters. -/
theorem step_tally {s s' : State} {e : Event} (hst : step s e = some s') (h : s.Ordered) :
    s.tally.Move e s'.tally := by
  cases e with
  | call c =>
    simp only [step] at hst
    split_ifs at hst with hctl
    exact Option.some.inj hst ▸ State.tally_call hctl c
  | control now => exact State.tally_controls h (State.control_cases hst)
  | pop i k =>
    obtain ⟨w, t, hw, ht, hp, htop, rfl⟩ := State.pop_cases hst
    exact State.tally_pop hw ht hp htop
  | advance i =>
    obtain ⟨w, hw, ha⟩ := State.advance_cases hst
    exact State.tally_advances hw ha

end IoTDrive.Pool
