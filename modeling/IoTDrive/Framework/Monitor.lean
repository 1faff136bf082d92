import IoTDrive.Framework.Inotify
import IoTDrive.Framework.Plugins

/-! The directory monitor and the loader it calls. `Run` starts a thread that reads events and
calls the loader for each plugin file; `Stop` clears the flag, takes the watch away, which
queues one more event, closes the descriptor and joins. Between these steps the thread
may be anywhere, and files come and go. What the loader throws leaves the thread, and so
ends the program; so does a read that fails while the flag is set, be it that a signal breaks
it; so does a call into a library that is gone. The flag and the descriptor are read and
written one step at a time. -/

namespace IoTDrive.Framework.Monitor

open Lib

/-- A path as the loader gets it. -/
def text (path : List UInt8) : String := String.ofList (path.map Char.ofUInt8)

/-- Where the thread is: there is none; at the test of `m_running`; before it reads
`m_notify_fd`; about to call `read` with it, or with -1; in `read`; in the loop over the events;
returned from `MonitorRun`. -/
inductive Worker where
  | absent
  | tests
  | loads
  | calls (fd : Bool)
  | blocked
  | notifies (pending : List Notice)
  | returned
  deriving DecidableEq, Repr

/-- Where `Stop` is: not called; before `inotify_rm_watch`, `close`, the store of -1, `join`. -/
inductive Owner where
  | idle
  | removes
  | closes
  | clears
  | joins
  deriving DecidableEq, Repr

/-- `notifyFd` tells that `m_notify_fd` is not -1. `raised` and `handled` record the events and
the calls that have returned; no step reads them. -/
structure State where
  queue : List FileEvent
  watched : Bool
  fdOpen : Bool
  notifyFd : Bool
  running : Bool
  worker : Worker
  owner : Owner
  memory : List UInt8
  loader : Plugins.State
  terminated : Bool
  raised : List FileEvent
  handled : List Notice

inductive Event where
  /-- something happens to a file -/
  | raise (e : FileEvent)
  /-- the directory itself is removed, and the watch with it -/
  | removeDir
  | run
  | stop
  /-- the next step of `Stop` -/
  | owner
  /-- the next step of the thread; `found` is the library that `dlopen` finds -/
  | worker (found : Option ℕ)
  /-- a signal ends `read` with `EINTR` -/
  | interrupt

namespace State

def init (memory : List UInt8) : State :=
  ⟨[], true, true, true, false, .absent, .idle, memory, .init, false, [], []⟩

/-- The kernel queues an event. -/
def push (s : State) (e : FileEvent) : State :=
  { s with queue := s.queue ++ [e], raised := s.raised ++ [e] }

/-- `read` has returned -1. -/
def readFailed (s : State) : State :=
  if s.running then { s with terminated := true } else { s with worker := .returned }

/-- The call of a dispatcher: the loader loads or unloads. -/
def call (libs : Plugins.Libraries) (s : State) (n : Notice) (found : Option ℕ) :
    Except String Plugins.State :=
  match n with
  | .opened path => s.loader.load libs (text path) found
  | .closed path => s.loader.unload libs (text path)

/-- `MonitorRun`, one step of it; nothing where it blocks. -/
def monitorRun (libs : Plugins.Libraries) (dirName : List UInt8) (s : State) (found : Option ℕ) :
    Option State :=
  match s.worker with
  | .absent => none
  | .tests => some { s with worker := if s.running then .loads else .returned }
  | .loads => some { s with worker := .calls s.notifyFd }
  | .calls fd => some (if fd ∧ s.fdOpen then { s with worker := .blocked } else s.readFailed)
  | .blocked =>
    if s.queue = [] then none
    else
      let r := readEvents bufferSize s.queue
      if r.1 = [] then some s.readFailed
      else
        let memory := fill s.memory r.1
        (monitorBatch dirName memory (r.1.flatMap FileEvent.bytes).length).map fun pending =>
          { s with queue := r.2, memory := memory, worker := .notifies pending }
  | .notifies [] => some { s with worker := .tests }
  | .notifies (n :: pending) =>
    match s.call libs n found with
    | .ok loader =>
      if loader.misused then some { s with terminated := true }
      else some
        { s with loader := loader, worker := .notifies pending, handled := s.handled ++ [n] }
    | .error _ => some { s with terminated := true }
  | .returned => none

/-- `Stop`, one step of it; nothing while the thread has not returned. -/
def stop (s : State) : Option State :=
  match s.owner with
  | .idle => none
  | .removes =>
    if s.notifyFd then
      some { (if s.watched then s.push .ignored else s) with watched := false, owner := .closes }
    else some { s with owner := .joins }
  | .closes => some { s with fdOpen := false, owner := .clears }
  | .clears => some { s with notifyFd := false, owner := .joins }
  | .joins =>
    if s.worker = .absent ∨ s.worker = .returned then
      some { s with worker := .absent, owner := .idle }
    else none

end State

def react (libs : Plugins.Libraries) (dirName : List UInt8) (s : State) : Event → Option State
  | .raise e => if s.watched then some (s.push e) else none
  | .removeDir => if s.watched then some { s.push .ignored with watched := false } else none
  | .run =>
    if s.owner ≠ .idle then none
    -- a thread is assigned to a `std::thread` that still has one
    else if s.worker ≠ .absent then some { s with running := true, terminated := true }
    else some { s with running := true, worker := .tests }
  | .stop =>
    if s.owner ≠ .idle then none
    else if s.running = false ∧ s.worker = .absent then some s
    else some { s with running := false, owner := .removes }
  | .owner => s.stop
  | .worker found => s.monitorRun libs dirName found
  | .interrupt => if s.worker = .blocked then some s.readFailed else none

/-- Nothing happens in a program that has ended. -/
def step (libs : Plugins.Libraries) (dirName : List UInt8) (s : State) (e : Event) : Option State :=
  if s.terminated then none else react libs dirName s e

/-! ### What a step does -/

variable {libs : Plugins.Libraries} {dirName : List UInt8} {s s' : State}

/-- A call of the loader throws, or goes into a library that is gone. -/
def State.Breaks (libs : Plugins.Libraries) (s : State) (n : Notice) (found : Option ℕ) : Prop :=
  (∃ what, s.call libs n found = .error what) ∨
    ∃ loader, s.call libs n found = .ok loader ∧ loader.misused = true

/-- A step of the thread. A `read` brings whole events, one at least, and the loop over them
never leaves the buffer. -/
inductive MonitorRun (libs : Plugins.Libraries) (dirName : List UInt8) (s : State) :
    Option ℕ → State → Prop where
  | tests {found : Option ℕ} (hw : s.worker = .tests) :
    MonitorRun libs dirName s found
      { s with worker := if s.running then .loads else .returned }
  | loads {found : Option ℕ} (hw : s.worker = .loads) :
    MonitorRun libs dirName s found { s with worker := .calls s.notifyFd }
  | blocks {found : Option ℕ} (hw : s.worker = .calls true) (hopen : s.fdOpen = true) :
    MonitorRun libs dirName s found { s with worker := .blocked }
  | fails {found : Option ℕ} (fd : Bool) (hw : s.worker = .calls fd)
      (hclosed : fd = false ∨ s.fdOpen = false) : MonitorRun libs dirName s found s.readFailed
  | reads {found : Option ℕ} (batch rest : List FileEvent) (hw : s.worker = .blocked)
      (hq : s.queue = batch ++ rest) : MonitorRun libs dirName s found { s with
        queue := rest
        memory := fill s.memory batch
        worker := .notifies (batch.flatMap (FileEvent.notices dirName)) }
  | done {found : Option ℕ} (hw : s.worker = .notifies []) :
    MonitorRun libs dirName s found { s with worker := .tests }
  | handles {found : Option ℕ} (n : Notice) (pending : List Notice) (loader : Plugins.State)
      (hw : s.worker = .notifies (n :: pending)) (hcall : s.call libs n found = .ok loader)
      (hgood : loader.misused = false) : MonitorRun libs dirName s found
      { s with loader := loader, worker := .notifies pending, handled := s.handled ++ [n] }
  | refuses {found : Option ℕ} (n : Notice) (pending : List Notice)
      (hw : s.worker = .notifies (n :: pending)) (hcall : s.Breaks libs n found) :
    MonitorRun libs dirName s found { s with terminated := true }

inductive Stops (s : State) : State → Prop where
  | removes (ho : s.owner = .removes) (hfd : s.notifyFd = true) :
    Stops s { (if s.watched then s.push .ignored else s) with watched := false, owner := .closes }
  | skips (ho : s.owner = .removes) (hfd : s.notifyFd = false) : Stops s { s with owner := .joins }
  | closes (ho : s.owner = .closes) : Stops s { s with fdOpen := false, owner := .clears }
  | clears (ho : s.owner = .clears) : Stops s { s with notifyFd := false, owner := .joins }
  | joins (ho : s.owner = .joins) (hw : s.worker = .absent ∨ s.worker = .returned) :
    Stops s { s with worker := .absent, owner := .idle }

inductive Step (libs : Plugins.Libraries) (dirName : List UInt8) (s : State) :
    Event → State → Prop where
  | raise (e : FileEvent) (hwatched : s.watched = true) : Step libs dirName s (.raise e) (s.push e)
  | removeDir (hwatched : s.watched = true) :
    Step libs dirName s .removeDir { s.push .ignored with watched := false }
  | run (ho : s.owner = .idle) (hw : s.worker = .absent) :
    Step libs dirName s .run { s with running := true, worker := .tests }
  | rerun (ho : s.owner = .idle) (hw : s.worker ≠ .absent) :
    Step libs dirName s .run { s with running := true, terminated := true }
  | notStarted (ho : s.owner = .idle) (hw : s.worker = .absent) : Step libs dirName s .stop s
  | stop (ho : s.owner = .idle) :
    Step libs dirName s .stop { s with running := false, owner := .removes }
  | owner {s' : State} (hst : Stops s s') : Step libs dirName s .owner s'
  | worker {found : Option ℕ} {s' : State} (hst : MonitorRun libs dirName s found s') :
    Step libs dirName s (.worker found) s'
  | interrupt (hw : s.worker = .blocked) : Step libs dirName s .interrupt s.readFailed

theorem monitorRun_cases {found : Option ℕ} (hst : s.monitorRun libs dirName found = some s') :
    MonitorRun libs dirName s found s' := by
  unfold State.monitorRun at hst
  split at hst
  case h_1 => cases hst
  case h_2 hw => exact Option.some.inj hst ▸ .tests hw
  case h_3 hw => exact Option.some.inj hst ▸ .loads hw
  case h_4 fd hw =>
    obtain rfl := Option.some.inj hst
    split_ifs with hopen
    · obtain ⟨rfl, hopen⟩ := hopen
      exact .blocks hw hopen
    · refine .fails fd hw ?_
      cases fd <;> simp_all
  case h_5 hw =>
    by_cases hq : s.queue = []
    · simp [hq] at hst
    · simp only [if_neg hq, if_neg (readEvents_ne_nil hq), monitorBatch_fill, Option.map_some,
        Option.some.injEq] at hst
      exact hst ▸ .reads _ _ hw (readEvents_append bufferSize s.queue).symm
  case h_6 hw => exact Option.some.inj hst ▸ .done hw
  case h_7 n pending hw =>
    split at hst
    · next loader hcall =>
      split_ifs at hst with hgood
      · exact Option.some.inj hst ▸ .refuses n pending hw (.inr ⟨loader, hcall, hgood⟩)
      · exact Option.some.inj hst ▸
          .handles n pending loader hw hcall (Bool.not_eq_true _ ▸ hgood)
    · next what hcall => exact Option.some.inj hst ▸ .refuses n pending hw (.inl ⟨what, hcall⟩)
  case h_8 => cases hst

theorem stop_cases (hst : s.stop = some s') : Stops s s' := by
  unfold State.stop at hst
  split at hst
  case h_1 => cases hst
  case h_2 ho =>
    split_ifs at hst with hfd hwatched
    · exact Option.some.inj hst ▸ by simpa [hwatched] using Stops.removes ho hfd
    · exact Option.some.inj hst ▸ by simpa [hwatched] using Stops.removes ho hfd
    · exact Option.some.inj hst ▸ .skips ho (Bool.not_eq_true _ ▸ hfd)
  case h_3 ho => exact Option.some.inj hst ▸ .closes ho
  case h_4 ho => exact Option.some.inj hst ▸ .clears ho
  case h_5 ho =>
    obtain ⟨hw, rfl⟩ := Option.ite_some_none_eq_some.mp hst
    exact .joins ho hw

theorem step_cases {e : Event} (hst : step libs dirName s e = some s') :
    s.terminated = false ∧ Step libs dirName s e s' := by
  obtain ⟨hend, hst⟩ := Option.ite_none_left_eq_some.mp hst
  refine ⟨Bool.not_eq_true _ ▸ hend, ?_⟩
  cases e with
  | raise e =>
    obtain ⟨hwatched, rfl⟩ := Option.ite_some_none_eq_some.mp hst
    exact .raise e hwatched
  | removeDir =>
    obtain ⟨hwatched, rfl⟩ := Option.ite_some_none_eq_some.mp hst
    exact .removeDir hwatched
  | run =>
    simp only [react] at hst
    split_ifs at hst with ho hw
    · exact Option.some.inj hst ▸ .rerun (not_not.mp ho) hw
    · exact Option.some.inj hst ▸ .run (not_not.mp ho) (not_not.mp hw)
  | stop =>
    simp only [react] at hst
    split_ifs at hst with ho hnot
    · exact Option.some.inj hst ▸ .notStarted (not_not.mp ho) hnot.2
    · exact Option.some.inj hst ▸ .stop (not_not.mp ho)
  | owner => exact .owner (stop_cases hst)
  | worker found => exact .worker (monitorRun_cases hst)
  | interrupt =>
    obtain ⟨hw, rfl⟩ := Option.ite_some_none_eq_some.mp hst
    exact .interrupt hw

/-! ### What the loader has been told -/

def Notice.path : Notice → List UInt8
  | .opened path => path
  | .closed path => path

def Notice.opens : Notice → Bool
  | .opened _ => true
  | .closed _ => false

/-- A plugin is there after the calls if the last one for its path opens it. -/
def installed (handled : List Notice) (path : List UInt8) : Bool :=
  handled.foldl (fun there n => if n.path = path then n.opens else there) false

theorem installed_append (handled : List Notice) (n : Notice) (path : List UInt8) :
    installed (handled ++ [n]) path =
      if n.path = path then n.opens else installed handled path := by
  rw [installed, List.foldl_append]
  rfl

/-- The events that the thread has read and not handled. -/
def State.inHand (s : State) : List Notice :=
  match s.worker with
  | .notifies pending => pending
  | _ => []

theorem text_inj {p q : List UInt8} : text p = text q ↔ p = q := by
  refine ⟨fun h => ?_, fun h => h ▸ rfl⟩
  refine List.map_injective_iff.mpr (fun a b hab => ?_) (String.ofList_injective h)
  exact UInt8.toNat_inj.mp (congrArg Char.toNat hab)

/-- The calls are those that the events ask for, in their order, and the loader has the
plugins that are there after them. -/
structure Sound (dirName : List UInt8) (s : State) : Prop where
  in_order : s.handled ++ s.inHand ++ s.queue.flatMap (FileEvent.notices dirName) =
    s.raised.flatMap (FileEvent.notices dirName)
  installs : ∀ path, text path ∈ s.loader.dllMap ↔ installed s.handled path = true
  aged : Plugins.Aged s.loader
  good : s.loader.misused = false

theorem init_sound (memory : List UInt8) : Sound dirName (State.init memory) where
  in_order := rfl
  installs path := by
    simp only [State.init, Plugins.State.init, installed, List.foldl_nil, Bool.false_eq_true,
      iff_false]
    exact AList.notMem_empty _
  aged := Plugins.init_aged
  good := rfl

/-- A step that touches neither the loader nor what is in hand. -/
theorem Sound.of_eq (h : Sound dirName s) (hand : s'.inHand = s.inHand)
    (hqueue : s'.queue = s.queue) (hraised : s'.raised = s.raised)
    (hloader : s'.loader = s.loader) (hhandled : s'.handled = s.handled) : Sound dirName s' := by
  constructor
  · rw [hand, hqueue, hraised, hhandled]
    exact h.in_order
  · rw [hloader, hhandled]
    exact h.installs
  · rw [hloader]
    exact h.aged
  · rw [hloader]
    exact h.good

theorem Sound.push (h : Sound dirName s) (e : FileEvent) : Sound dirName (s.push e) where
  in_order := by
    change s.handled ++ s.inHand ++ (s.queue ++ [e]).flatMap (FileEvent.notices dirName) =
      (s.raised ++ [e]).flatMap (FileEvent.notices dirName)
    rw [List.flatMap_append, List.flatMap_append, ← List.append_assoc, h.in_order]
  installs := h.installs
  aged := h.aged
  good := h.good

/-- The loader has carried out a call. -/
theorem installs_call {n : Notice} {found : Option ℕ} {loader : Plugins.State}
    (h : ∀ path, text path ∈ s.loader.dllMap ↔ installed s.handled path = true)
    (hcall : s.call libs n found = .ok loader) (path : List UInt8) :
    text path ∈ loader.dllMap ↔ installed (s.handled ++ [n]) path = true := by
  rw [installed_append]
  cases n with
  | opened p =>
    rw [Plugins.mem_load hcall, text_inj, h path]
    by_cases hp : p = path
    · simp [Notice.path, Notice.opens, hp]
    · simp [Notice.path, hp, Ne.symm hp]
  | closed p =>
    rw [Plugins.mem_unload hcall, Ne, text_inj, h path]
    by_cases hp : p = path
    · simp [Notice.path, Notice.opens, hp]
    · simp [Notice.path, hp, Ne.symm hp]

theorem aged_call {n : Notice} {found : Option ℕ} {loader : Plugins.State}
    (h : Plugins.Aged s.loader) (hcall : s.call libs n found = .ok loader) :
    Plugins.Aged loader := by
  cases n with
  | opened p => exact h.load hcall
  | closed p => exact h.unload hcall

theorem Sound.readFailed (h : Sound dirName s) (hand : s.inHand = []) :
    Sound dirName s.readFailed := by
  unfold State.readFailed
  split_ifs
  · exact h.of_eq rfl rfl rfl rfl rfl
  · exact h.of_eq hand.symm rfl rfl rfl rfl

theorem Sound.monitorRun {found : Option ℕ} (h : Sound dirName s)
    (hst : MonitorRun libs dirName s found s') : Sound dirName s' := by
  have horder := h.in_order
  cases hst with
  | tests hw =>
    refine h.of_eq ?_ rfl rfl rfl rfl
    cases hr : s.running <;> simp [State.inHand, hw]
  | loads hw => exact h.of_eq (by simp [State.inHand, hw]) rfl rfl rfl rfl
  | blocks hw => exact h.of_eq (by simp [State.inHand, hw]) rfl rfl rfl rfl
  | fails fd hw => exact h.readFailed (by simp [State.inHand, hw])
  | reads batch rest hw hq =>
    rw [State.inHand, hw, hq, List.append_nil, List.flatMap_append, ← List.append_assoc] at horder
    exact ⟨horder, h.installs, h.aged, h.good⟩
  | done hw => exact h.of_eq (by simp [State.inHand, hw]) rfl rfl rfl rfl
  | handles n pending loader hw hcall hgood =>
    rw [State.inHand, hw, List.append_cons] at horder
    exact ⟨horder, installs_call h.installs hcall, aged_call h.aged hcall, hgood⟩
  | refuses n pending hw hcall => exact h.of_eq rfl rfl rfl rfl rfl

theorem Sound.stops (h : Sound dirName s) (hst : Stops s s') : Sound dirName s' := by
  cases hst with
  | removes ho hfd =>
    split_ifs
    · exact (h.push .ignored).of_eq rfl rfl rfl rfl rfl
    · exact h.of_eq rfl rfl rfl rfl rfl
  | skips ho hfd => exact h.of_eq rfl rfl rfl rfl rfl
  | closes ho => exact h.of_eq rfl rfl rfl rfl rfl
  | clears ho => exact h.of_eq rfl rfl rfl rfl rfl
  | joins ho hw =>
    refine h.of_eq ?_ rfl rfl rfl rfl
    rcases hw with hw | hw <;> simp [State.inHand, hw]

theorem step_sound {e : Event} (hst : step libs dirName s e = some s') (h : Sound dirName s) :
    Sound dirName s' := by
  cases (step_cases hst).2 with
  | raise e _ => exact h.push e
  | removeDir _ => exact (h.push .ignored).of_eq rfl rfl rfl rfl rfl
  | run _ hw => exact h.of_eq (by simp [State.inHand, hw]) rfl rfl rfl rfl
  | rerun _ _ => exact h.of_eq rfl rfl rfl rfl rfl
  | notStarted _ _ => exact h
  | stop _ => exact h.of_eq rfl rfl rfl rfl rfl
  | owner hst => exact h.stops hst
  | worker hst => exact h.monitorRun hst
  | interrupt hw => exact h.readFailed (by simp [State.inHand, hw])

/-! ### What ends the program -/

/-- `Run` is called once: there is no thread, and the descriptor has not been closed. -/
def StartedOnce (s : State) : Event → Prop
  | .run => s.worker = .absent ∧ s.notifyFd = true
  | _ => True

instance (s : State) (e : Event) : Decidable (StartedOnce s e) :=
  match e with
  | .run => inferInstanceAs (Decidable (_ ∧ _))
  | .raise _ | .removeDir | .stop | .owner | .worker _ | .interrupt => .isTrue trivial

/-- The steps that end the program. A signal breaks `read` while the flag is set. The loader is
to close a plugin that it does not have, or to open one that it does not have and that `dlopen`
refuses, or whose constructor overwrites a function of a library that is gone. -/
def Fatal (libs : Plugins.Libraries) (s : State) : Event → Prop
  | .interrupt => s.running = true
  | .worker found => ∃ n pending, s.worker = .notifies (n :: pending) ∧
    installed s.handled n.path = false ∧
    (n.opens = true → found = none ∨ ∃ lib, found = some lib ∧ s.loader.mapped lib = false ∧
      ∃ key ∈ libs.keys lib, ¬ s.loader.Callable key)
  | _ => False

/-- While the flag is set the descriptor is open. -/
structure Steady (s : State) : Prop where
  running : s.running = true → s.owner = .idle ∧ s.notifyFd = true
  fd_open : s.notifyFd = true → s.owner ≠ .clears → s.fdOpen = true
  calls : s.running = true → ∀ fd, s.worker = .calls fd → fd = true

theorem init_steady (memory : List UInt8) : Steady (State.init memory) :=
  ⟨by simp [State.init], fun _ _ => rfl, by simp [State.init]⟩

/-- A step of the thread leaves the flag and the descriptor alone. -/
theorem Steady.of_worker (h : Steady s) (hrunning : s'.running = s.running)
    (howner : s'.owner = s.owner) (hfd : s'.notifyFd = s.notifyFd) (hopen : s'.fdOpen = s.fdOpen)
    (hcalls : ∀ fd, s'.worker = .calls fd → fd = s.notifyFd) : Steady s' where
  running := by
    rw [hrunning, howner, hfd]
    exact h.running
  fd_open := by
    rw [hfd, howner, hopen]
    exact h.fd_open
  calls hrun fd hw := by
    rw [hcalls fd hw]
    exact (h.running (hrunning ▸ hrun)).2

/-- While the flag is set, `read` does not fail by itself. -/
theorem Steady.not_running (h : Steady s) {fd : Bool} (hw : s.worker = .calls fd)
    (hclosed : fd = false ∨ s.fdOpen = false) : s.running = false := by
  by_contra hrun
  have hrun : s.running = true := by simpa using hrun
  have hopen := h.fd_open (h.running hrun).2 (by simp [(h.running hrun).1])
  rcases hclosed with rfl | hclosed
  · exact Bool.false_ne_true (h.calls hrun false hw)
  · rw [hopen] at hclosed
    cases hclosed

theorem Steady.readFailed (h : Steady s) (hw : ∀ fd, s.worker = .calls fd → s.running = false) :
    Steady s.readFailed := by
  unfold State.readFailed
  split_ifs with hrun
  · refine h.of_worker rfl rfl rfl rfl fun fd hfd => ?_
    rw [hw fd hfd] at hrun
    cases hrun
  · exact h.of_worker rfl rfl rfl rfl (by simp)

theorem Steady.monitorRun {found : Option ℕ} (h : Steady s)
    (hst : MonitorRun libs dirName s found s') : Steady s' := by
  cases hst with
  | tests hw =>
    refine h.of_worker rfl rfl rfl rfl ?_
    cases hr : s.running <;> simp
  | loads hw =>
    exact h.of_worker rfl rfl rfl rfl fun fd hfd => (Worker.calls.inj hfd).symm
  | blocks hw _ => exact h.of_worker rfl rfl rfl rfl (by simp)
  | fails fd hw hclosed => exact h.readFailed fun _ _ => h.not_running hw hclosed
  | reads batch rest hw hq => exact h.of_worker rfl rfl rfl rfl (by simp)
  | done hw => exact h.of_worker rfl rfl rfl rfl (by simp)
  | handles n pending loader hw _ _ => exact h.of_worker rfl rfl rfl rfl (by simp)
  | refuses n pending hw _ => exact h.of_worker rfl rfl rfl rfl (by simp [hw])

theorem Steady.stops (h : Steady s) (hst : Stops s s') : Steady s' := by
  have hstopped : s.owner ≠ .idle → s.running = false := fun ho => by
    by_contra hrun
    exact ho (h.running (by simpa using hrun)).1
  cases hst with
  | removes ho hfd =>
    have hrun := hstopped (by simp [ho])
    have hopen := h.fd_open hfd (by simp [ho])
    constructor
    case running => split_ifs <;> simp [State.push, hrun]
    case fd_open => split_ifs <;> simpa [State.push] using fun _ => hopen
    case calls => split_ifs <;> simp [State.push, hrun]
  | skips ho hfd =>
    have hrun := hstopped (by simp [ho])
    exact ⟨by simp [hrun], by simp [hfd], by simp [hrun]⟩
  | closes ho =>
    have hrun := hstopped (by simp [ho])
    exact ⟨by simp [hrun], by simp, by simp [hrun]⟩
  | clears ho =>
    have hrun := hstopped (by simp [ho])
    exact ⟨by simp [hrun], by simp, by simp [hrun]⟩
  | joins ho hw =>
    have hrun := hstopped (by simp [ho])
    exact ⟨by simp [hrun], fun hfd _ => h.fd_open hfd (by simp [ho]), by simp [hrun]⟩

theorem step_steady {e : Event} (hg : StartedOnce s e) (hst : step libs dirName s e = some s')
    (h : Steady s) : Steady s' := by
  cases (step_cases hst).2 with
  | raise e _ => exact ⟨h.running, h.fd_open, h.calls⟩
  | removeDir _ => exact ⟨h.running, h.fd_open, h.calls⟩
  | run ho hw => exact ⟨fun _ => ⟨ho, hg.2⟩, h.fd_open, by simp⟩
  | rerun ho hw => exact absurd hg.1 hw
  | notStarted _ _ => exact h
  | stop ho => exact ⟨by simp, fun hfd _ => h.fd_open hfd (by simp [ho]), by simp⟩
  | owner hst => exact h.stops hst
  | worker hst => exact h.monitorRun hst
  | interrupt hw => exact h.readFailed fun fd hfd => by simp [hw] at hfd

/-- Which calls of the loader end the program. -/
theorem Sound.breaks_iff (h : Sound dirName s) {n : Notice} {found : Option ℕ} :
    s.Breaks libs n found ↔ installed s.handled n.path = false ∧
      (n.opens = true → found = none ∨ ∃ lib, found = some lib ∧ s.loader.mapped lib = false ∧
        ∃ key ∈ libs.keys lib, ¬ s.loader.Callable key) := by
  have hnot : ∀ path, installed s.handled path = false ↔ text path ∉ s.loader.dllMap := by
    intro path
    rw [h.installs path, Bool.not_eq_true]
  rw [hnot, State.Breaks]
  cases n with
  | opened p =>
    simp only [State.call, Plugins.load_eq_error, Notice.path, Notice.opens, forall_const]
    constructor
    · rintro (⟨hp, rfl⟩ | ⟨loader, hcall, hgone⟩)
      · exact ⟨hp, .inl rfl⟩
      · obtain ⟨hp, hlib⟩ := (Plugins.load_misused_iff h.aged h.good hcall).mp hgone
        exact ⟨hp, .inr hlib⟩
    · rintro ⟨hp, rfl | hlib⟩
      · exact .inl ⟨hp, rfl⟩
      · cases hcall : s.loader.load libs (text p) found with
        | error what => exact .inl (Plugins.load_eq_error.mp ⟨what, hcall⟩)
        | ok loader =>
          exact .inr ⟨loader, rfl, (Plugins.load_misused_iff h.aged h.good hcall).mpr ⟨hp, hlib⟩⟩
  | closed p =>
    simp only [State.call, Plugins.unload_eq_error, Notice.path, Notice.opens, Bool.false_eq_true,
      false_imp_iff, and_true]
    refine or_iff_left ?_
    rintro ⟨loader, hcall, hgone⟩
    rw [Plugins.unload_misused hcall, h.good] at hgone
    cases hgone

/-- A step ends the program exactly if it is one of those. -/
theorem terminated_iff {e : Event} (hg : StartedOnce s e) (hst : step libs dirName s e = some s')
    (hs : Sound dirName s) (h : Steady s) : s'.terminated = true ↔ Fatal libs s e := by
  obtain ⟨hlive, hst⟩ := step_cases hst
  have hnot : ¬ s.terminated = true := by simp [hlive]
  cases hst with
  | raise | removeDir | run | stop | notStarted => exact iff_of_false hnot id
  | rerun ho hw => exact absurd hg.1 hw
  | owner hst =>
    refine iff_of_false ?_ id
    cases hst with
    | removes => split_ifs <;> exact hnot
    | skips | closes | clears | joins => exact hnot
  | interrupt hw => cases hrun : s.running <;> simp [State.readFailed, Fatal, hrun, hlive]
  | worker hst =>
    cases hst with
    | tests hw | loads hw | blocks hw | reads _ _ hw | done hw =>
      exact iff_of_false hnot (by simp [Fatal, hw])
    | fails fd hw hclosed =>
      refine iff_of_false ?_ (by simp [Fatal, hw])
      simp [State.readFailed, h.not_running hw hclosed, hlive]
    | handles n pending loader hw hcall hgood =>
      refine iff_of_false hnot ?_
      rintro ⟨n', pending', hw', hfatal⟩
      obtain ⟨rfl, rfl⟩ := List.cons.inj (Worker.notifies.inj (hw.symm.trans hw'))
      rcases hs.breaks_iff.mpr hfatal with ⟨what, herr⟩ | ⟨loader', hok, hgone⟩
      · rw [hcall] at herr
        cases herr
      · obtain rfl := Except.ok.inj (hcall.symm.trans hok)
        rw [hgood] at hgone
        cases hgone
    | refuses n pending hw hcall =>
      exact iff_of_true rfl ⟨n, pending, hw, hs.breaks_iff.mp hcall⟩

/-- A monitor that is started once: however file events, reads, signals and `Stop` interleave,
and however the kernel divides the events among the reads, the loader is called for the plugin
files among them, once each and in their order; it has exactly the plugins whose last call has
opened them; and the program has ended exactly if the last step was a fatal one. -/
theorem monitor_installs (libs : Plugins.Libraries) (dirName memory : List UInt8)
    (es : List Event) (s : State)
    (h : run (step libs dirName) StartedOnce es (State.init memory) = some s) :
    s.handled ++ s.inHand ++ s.queue.flatMap (FileEvent.notices dirName) =
        s.raised.flatMap (FileEvent.notices dirName) ∧
      (∀ path, text path ∈ s.loader.dllMap ↔ installed s.handled path = true) ∧
      (s.terminated = true ↔ ∃ front e s₀, es = front ++ [e] ∧
        run (step libs dirName) StartedOnce front (State.init memory) = some s₀ ∧
        Fatal libs s₀ e) := by
  have hinv : ∀ {es s}, run (step libs dirName) StartedOnce es (State.init memory) = some s →
      Sound dirName s ∧ Steady s := fun hrun =>
    run_invariant (P := fun s => Sound dirName s ∧ Steady s)
      (fun _ _ _ hg hst hi => ⟨step_sound hst hi.1, step_steady hg hst hi.2⟩) hrun
      ⟨init_sound memory, init_steady memory⟩
  refine ⟨(hinv h).1.in_order, (hinv h).1.installs, ?_⟩
  rcases List.eq_nil_or_concat es with rfl | ⟨front, e, rfl⟩
  · obtain rfl := Option.some.inj h
    simp [State.init]
  · rw [List.concat_eq_append, run_concat] at h
    obtain ⟨s₀, hs₀, hlast⟩ := Option.bind_eq_some_iff.mp h
    obtain ⟨hg, hst⟩ := Option.ite_none_right_eq_some.mp hlast
    rw [terminated_iff hg hst (hinv hs₀).1 (hinv hs₀).2]
    constructor
    · exact fun hfatal => ⟨front, e, s₀, by simp, hs₀, hfatal⟩
    · rintro ⟨front', e', s₁, heq, hs₁, hfatal⟩
      rw [List.concat_eq_append] at heq
      obtain ⟨rfl, he⟩ := List.append_inj' heq rfl
      obtain rfl := List.singleton_inj.mp he
      obtain rfl := Option.some.inj (hs₀.symm.trans hs₁)
      exact hfatal

/-- Two files are written and one of them is deleted; the first `read` brings both writes. -/
def writtenAndDeleted : List Event :=
  let a : FileEvent := ⟨1, inCloseWrite, 0, [0x61, 0x2e, 0x73, 0x6f], 11, by decide, by decide,
    by decide⟩
  let b : FileEvent := ⟨1, inCloseWrite, 0, [0x62, 0x2e, 0x73, 0x6f], 11, by decide, by decide,
    by decide⟩
  let deleted : FileEvent := ⟨1, inDelete, 0, [0x61, 0x2e, 0x73, 0x6f], 11, by decide, by decide,
    by decide⟩
  [.run, .raise a, .raise b, .worker none, .worker none, .worker none, .worker none, .raise deleted,
    .worker (some 0), .worker (some 1), .worker none, .worker none, .worker none, .stop, .owner,
    .worker none, .worker none, .worker none]

theorem monitor_installs_one :
    ∃ s, run (step ⟨fun _ => [], fun _ => true⟩ []) StartedOnce writtenAndDeleted
        (State.init (List.replicate bufferSize 0)) = some s ∧
      s.handled.length = 3 ∧ s.terminated = false ∧
      (text [0x62, 0x2e, 0x73, 0x6f] ∈ s.loader.dllMap ↔
        installed s.handled [0x62, 0x2e, 0x73, 0x6f] = true) := by
  have hrun : (run (step ⟨fun _ => [], fun _ => true⟩ []) StartedOnce writtenAndDeleted
      (State.init (List.replicate bufferSize 0))).map (fun s => (s.handled.length, s.terminated)) =
        some (3, false) := by decide +kernel
  obtain ⟨s, hs, he⟩ := Option.map_eq_some_iff.mp hrun
  simp only [Prod.mk.injEq] at he
  exact ⟨s, hs, he.1, he.2,
    (monitor_installs ⟨fun _ => [], fun _ => true⟩ [] _ writtenAndDeleted s hs).2.1 _⟩

end IoTDrive.Framework.Monitor
