import Mathlib.Data.List.Basic
import Mathlib.Logic.Function.Basic
import Mathlib.Tactic.SplitIfs

/-! `LinuxListener::Listen`: one pass fills the two descriptor sets of `select` and the
largest descriptor, a second pass asks both sets about every pair of the list. What is
ready comes from outside; `select` leaves exactly that in the sets, or fails. A
descriptor is a natural number, since `FD_SET` has no meaning for others. -/

namespace IoTDrive.EventLoop

/-- `IListener::Mode`. -/
inductive Mode where
  | write
  | read
  deriving DecidableEq, Repr

/-- A descriptor and what one waits for on it. -/
abbrev Key := ℕ × Mode

/-- `fd_set`. -/
abbrev FdSet := ℕ → Bool

def fdZero : FdSet := fun _ => false

def fdSet (fd : ℕ) (s : FdSet) : FdSet := Function.update s fd true

/-- The local variables of the first loop. -/
structure Interest where
  readFds : FdSet
  writeFds : FdSet
  maxFd : ℕ

/-- One round of the first loop; the maximum is computed without a branch. -/
def Interest.add (s : Interest) (pair : Key) : Interest where
  readFds := if pair.2 = .read then fdSet pair.1 s.readFds else s.readFds
  writeFds := if pair.2 = .read then s.writeFds else fdSet pair.1 s.writeFds
  maxFd := s.maxFd * (decide (pair.1 < s.maxFd)).toNat + pair.1 * (decide (s.maxFd ≤ pair.1)).toNat

def collect (fdList : List Key) : Interest := fdList.foldl Interest.add ⟨fdZero, fdZero, 0⟩

/-- The first argument of `select`. -/
def nfds (fdList : List Key) : ℕ := (collect fdList).maxFd + 1

/-- Which descriptors are ready for what. -/
structure Readiness where
  readReady : ℕ → Bool
  writeReady : ℕ → Bool

/-- `select` leaves in a set its ready descriptors below `n`. -/
def select (n : ℕ) (ready : ℕ → Bool) (s : FdSet) : FdSet :=
  fun fd => decide (fd < n) && s fd && ready fd

/-- `Listen`, by what `select` finds, or nothing if it fails. -/
def listen (found : Option Readiness) (fdList : List Key) : Except String (List Key) :=
  match found with
  | none => .error "select failed"
  | some r =>
    let s := collect fdList
    let readFds := select (nfds fdList) r.readReady s.readFds
    let writeFds := select (nfds fdList) r.writeReady s.writeFds
    .ok (fdList.filter fun pair => readFds pair.1 || writeFds pair.1)

/-! ### The first loop -/

@[simp] theorem add_maxFd (s : Interest) (pair : Key) : (s.add pair).maxFd = max s.maxFd pair.1 := by
  by_cases h : pair.1 < s.maxFd
  · simp [Interest.add, h, Nat.not_le.mpr h, Nat.max_eq_left (Nat.le_of_lt h)]
  · have hle := Nat.le_of_not_lt h
    rw [Nat.max_eq_right hle]
    simp [Interest.add, h, hle]

theorem add_readFds (s : Interest) (pair : Key) (fd : ℕ) :
    (s.add pair).readFds fd = true ↔ s.readFds fd = true ∨ pair = (fd, .read) := by
  obtain ⟨fd', mode⟩ := pair
  cases mode with
  | write => simp [Interest.add]
  | read =>
    by_cases h : fd = fd'
    · simp [Interest.add, fdSet, h]
    · simp [Interest.add, fdSet, h, Ne.symm h]

theorem add_writeFds (s : Interest) (pair : Key) (fd : ℕ) :
    (s.add pair).writeFds fd = true ↔ s.writeFds fd = true ∨ pair = (fd, .write) := by
  obtain ⟨fd', mode⟩ := pair
  cases mode with
  | read => simp [Interest.add]
  | write =>
    by_cases h : fd = fd'
    · simp [Interest.add, fdSet, h]
    · simp [Interest.add, fdSet, h, Ne.symm h]

theorem foldl_add_readFds (fdList : List Key) (s : Interest) (fd : ℕ) :
    (fdList.foldl Interest.add s).readFds fd = true ↔
      s.readFds fd = true ∨ (fd, .read) ∈ fdList := by
  induction fdList generalizing s with
  | nil => simp
  | cons pair fdList ih =>
    rw [List.foldl_cons, ih, add_readFds, List.mem_cons, or_assoc, eq_comm (a := pair)]

theorem foldl_add_writeFds (fdList : List Key) (s : Interest) (fd : ℕ) :
    (fdList.foldl Interest.add s).writeFds fd = true ↔
      s.writeFds fd = true ∨ (fd, .write) ∈ fdList := by
  induction fdList generalizing s with
  | nil => simp
  | cons pair fdList ih =>
    rw [List.foldl_cons, ih, add_writeFds, List.mem_cons, or_assoc, eq_comm (a := pair)]

theorem foldl_add_maxFd (fdList : List Key) (s : Interest) :
    (fdList.foldl Interest.add s).maxFd = fdList.foldl (fun n pair => max n pair.1) s.maxFd := by
  induction fdList generalizing s with
  | nil => rfl
  | cons pair fdList ih => rw [List.foldl_cons, ih, add_maxFd, List.foldl_cons]

/-- A running maximum from `n` on is `n` or an element, and none is greater. -/
theorem foldl_max (fdList : List Key) (n : ℕ) :
    let top := fdList.foldl (fun n pair => max n pair.1) n
    n ≤ top ∧ (∀ q ∈ fdList, q.1 ≤ top) ∧ (top = n ∨ ∃ p ∈ fdList, top = p.1) := by
  induction fdList generalizing n with
  | nil => simp
  | cons pair fdList ih =>
    obtain ⟨hle, hall, htop⟩ := ih (max n pair.1)
    refine ⟨Nat.le_trans (Nat.le_max_left _ _) hle, ?_, ?_⟩
    · intro q hq
      rcases List.mem_cons.mp hq with rfl | hq
      · exact Nat.le_trans (Nat.le_max_right _ _) hle
      · exact hall q hq
    · rcases htop with htop | ⟨p, hp, htop⟩
      · rcases Nat.le_total n pair.1 with hn | hn
        · exact .inr ⟨pair, List.mem_cons_self, by rw [List.foldl_cons, htop, Nat.max_eq_right hn]⟩
        · exact .inl (by rw [List.foldl_cons, htop, Nat.max_eq_left hn])
      · exact .inr ⟨p, .tail _ hp, by rw [List.foldl_cons, htop]⟩

/-- `select` is told one more than the largest descriptor. -/
theorem nfds_eq {fdList : List Key} (h : fdList ≠ []) :
    ∃ p ∈ fdList, nfds fdList = p.1 + 1 ∧ ∀ q ∈ fdList, q.1 ≤ p.1 := by
  obtain ⟨-, hall, htop⟩ := foldl_max fdList 0
  have hmax : (collect fdList).maxFd = fdList.foldl (fun n pair => max n pair.1) 0 :=
    foldl_add_maxFd fdList _
  rcases htop with htop | ⟨p, hp, htop⟩
  · -- the maximum is the initial zero, and so is every descriptor
    obtain ⟨p, hp⟩ := List.exists_mem_of_ne_nil fdList h
    have hp0 : p.1 = 0 := Nat.le_zero.mp (htop ▸ hall p hp)
    refine ⟨p, hp, by rw [nfds, hmax, htop, hp0], fun q hq => ?_⟩
    rw [hp0, ← htop]
    exact hall q hq
  · refine ⟨p, hp, by rw [nfds, hmax, htop], fun q hq => ?_⟩
    rw [← htop]
    exact hall q hq

theorem lt_nfds {fdList : List Key} {q : Key} (hq : q ∈ fdList) : q.1 < nfds fdList := by
  obtain ⟨p, -, heq, hle⟩ := nfds_eq (List.ne_nil_of_mem hq)
  rw [heq]
  exact Nat.lt_succ_of_le (hle q hq)

/-! ### The second loop -/

/-- The pair itself is ready. -/
def Readiness.ready (r : Readiness) : Key → Bool
  | (fd, .read) => r.readReady fd
  | (fd, .write) => r.writeReady fd

theorem mem_listen {r : Readiness} {fdList : List Key} {fd : ℕ} {mode : Mode}
    (h : (fd, mode) ∈ fdList) :
    ((select (nfds fdList) r.readReady (collect fdList).readFds fd ||
        select (nfds fdList) r.writeReady (collect fdList).writeFds fd) = true) ↔
      (fd, .read) ∈ fdList ∧ r.readReady fd = true ∨
        (fd, .write) ∈ fdList ∧ r.writeReady fd = true := by
  have hlt : fd < nfds fdList := lt_nfds h
  have hread := foldl_add_readFds fdList ⟨fdZero, fdZero, 0⟩ fd
  have hwrite := foldl_add_writeFds fdList ⟨fdZero, fdZero, 0⟩ fd
  simp only [fdZero, Bool.false_eq_true, false_or] at hread hwrite
  simp only [select, collect, hlt, decide_true, Bool.true_and, Bool.or_eq_true, Bool.and_eq_true]
  rw [← hread, ← hwrite]

/-- What comes back is part of what was asked for, in order. -/
theorem listen_sublist {found : Option Readiness} {fdList result : List Key}
    (h : listen found fdList = .ok result) : result.Sublist fdList := by
  unfold listen at h
  split at h
  · cases h
  · cases h
    exact List.filter_sublist

/-- What `Listen` is for: `select` is told one more than the largest descriptor, and exactly
the ready pairs of the list come back, in order. -/
structure ReportsReady (r : Readiness) (fdList : List Key) : Prop where
  nfds_eq : fdList ≠ [] → ∃ p ∈ fdList, nfds fdList = p.1 + 1 ∧ ∀ q ∈ fdList, q.1 ≤ p.1
  result_eq : listen (some r) fdList = .ok (fdList.filter r.ready)

/-- Exactly the ready pairs come back if and only if every descriptor listed for both modes is
ready for both or for neither. -/
theorem listen_reportsReady_iff (r : Readiness) (fdList : List Key) :
    ReportsReady r fdList ↔
      ∀ fd, (fd, .read) ∈ fdList → (fd, .write) ∈ fdList → r.readReady fd = r.writeReady fd := by
  constructor
  · rintro ⟨-, hresult⟩ fd hread hwrite
    have hfilter := Except.ok.inj hresult
    -- both pairs of the descriptor come back together
    have hboth : ∀ mode, (fd, mode) ∈ fdList →
        (r.ready (fd, mode) = true ↔ r.readReady fd = true ∨ r.writeReady fd = true) := by
      intro mode hmem
      have hiff : (fd, mode) ∈ fdList.filter r.ready ↔ r.readReady fd = true ∨
          r.writeReady fd = true := by
        rw [← hfilter, List.mem_filter, mem_listen hmem]
        simp [hmem, hread, hwrite]
      rw [← hiff, List.mem_filter]
      simp [hmem]
    exact Bool.eq_iff_iff.mpr ((hboth .read hread).trans (hboth .write hwrite).symm)
  · intro h
    refine ⟨nfds_eq, congrArg Except.ok ?_⟩
    apply List.filter_congr
    rintro ⟨fd, mode⟩ hmem
    rw [Bool.eq_iff_iff, mem_listen hmem]
    cases mode with
    | read =>
      constructor
      · rintro (⟨-, hr⟩ | ⟨hw, hr⟩)
        · exact hr
        · exact (h fd hmem hw).trans hr
      · exact fun hr => .inl ⟨hmem, hr⟩
    | write =>
      constructor
      · rintro (⟨hr, hw⟩ | ⟨-, hw⟩)
        · exact (h fd hr hmem).symm.trans hw
        · exact hw
      · exact fun hw => .inr ⟨hmem, hw⟩

/-- Nothing has come on a socket with room to write. -/
def roomToWrite : Readiness := ⟨fun _ => false, fun _ => true⟩

/-- The socket is listened to for both modes: its reader is called although nothing has come. -/
theorem listen_unready_reader :
    listen (some roomToWrite) [(5, .write), (5, .read)] = .ok [(5, .write), (5, .read)] ∧
      ¬ ReportsReady roomToWrite [(5, .write), (5, .read)] := by
  refine ⟨rfl, fun h => ?_⟩
  exact absurd (Except.ok.inj h.result_eq) (by decide)

end IoTDrive.EventLoop
