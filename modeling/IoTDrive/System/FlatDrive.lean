import IoTDrive.System.Simulation

/-! The drive under one request at a time. A request is issued when every datagram of the
earlier ones has been executed and answered, every send succeeds and no file is
touched from outside. Then the replies are those of the flat drive as long as reads
ask for clean bytes and no send replaces a callback that still waits. Without this a
write to a neighbouring chunk is enough for a wrong byte. -/

namespace IoTDrive.System

open Lib Message Minion Stripe Master Drive

variable {M : MinionManager} {s s' : Sys} {k : ℕ}

/-- The socket has seen the replies of the flat drive to all requests, or to all but the
last one. -/
def FlatReplies (s : Sys) : Prop :=
  ∃ k, (s.requests.length = k ∨ s.requests.length = k + 1) ∧
    s.master.nbdOut = (replies (fun _ => 0) (s.requests.take k)).map some

/-- No command runs and nothing is in flight. -/
def Idle (s : Sys) : Prop :=
  (∀ job ∈ s.master.jobs, job.commandDone = true) ∧ s.toMinion = [] ∧ s.toMaster = []

instance (s : Sys) : Decidable (Idle s) := inferInstanceAs (Decidable (_ ∧ _ ∧ _))

/-- One request at a time on a network that delivers, with files that work. -/
def OneByOne (M : MinionManager) (s : Sys) : Action → Prop
  | .getTaskArgs req _ => Carried M req ∧ Idle s
  | .advance _ sendOk _ => sendOk = true
  | .execute _ _ _ => True
  | .answer _ _ => True
  | _ => False

/-- The datagrams to a minion, and those from it, arrive in the order they were sent. -/
def InOrder (s : Sys) : Action → Prop
  | .execute i _ _ => ∀ p ∈ s.toMinion[i]?, ∀ q ∈ s.toMinion.take i, q.minion ≠ p.minion
  | .answer i _ => ∀ p ∈ s.toMaster[i]?, ∀ q ∈ s.toMaster.take i, q.minion ≠ p.minion
  | _ => True

/-- A read asks for clean bytes, and no send replaces a waiting callback. -/
def Separate (M : MinionManager) (s : Sys) : Action → Prop
  | .getTaskArgs req _ => req.op = .read → CleanBytes M s.requests req
  | .advance j _ _ => FreeSlot s.master j
  | _ => True

instance (M : MinionManager) (s : Sys) (a : Action) : Decidable (OneByOne M s a) :=
  match a with
  | .getTaskArgs req _ => inferInstanceAs (Decidable (Carried M req ∧ Idle s))
  | .advance _ sendOk _ => inferInstanceAs (Decidable (sendOk = true))
  | .execute .. | .answer .. => inferInstanceAs (Decidable True)
  | .loseRequest .. | .loseAnswer .. | .injectRequest .. | .injectAnswer .. | .disk ..
  | .restart .. => inferInstanceAs (Decidable False)

instance (s : Sys) (a : Action) : Decidable (InOrder s a) :=
  match a with
  | .execute i _ _ => inferInstanceAs (Decidable
      (∀ p ∈ s.toMinion[i]?, ∀ q ∈ s.toMinion.take i, q.minion ≠ p.minion))
  | .answer i _ => inferInstanceAs (Decidable
      (∀ p ∈ s.toMaster[i]?, ∀ q ∈ s.toMaster.take i, q.minion ≠ p.minion))
  | .getTaskArgs .. | .advance .. | .loseRequest .. | .loseAnswer .. | .injectRequest ..
  | .injectAnswer .. | .disk .. | .restart .. => inferInstanceAs (Decidable True)

instance (M : MinionManager) (s : Sys) (a : Action) : Decidable (Separate M s a) :=
  match a with
  | .getTaskArgs req _ => inferInstanceAs (Decidable (req.op = .read → CleanBytes M s.requests req))
  | .advance j _ _ => inferInstanceAs (Decidable (FreeSlot s.master j))
  | .execute .. | .answer .. | .loseRequest .. | .loseAnswer .. | .injectRequest ..
  | .injectAnswer .. | .disk .. | .restart .. => inferInstanceAs (Decidable True)

/-! ### Answers and replies -/

/-- A healthy minion answers every request that is carried. -/
theorem Refines.answers (h : Refines M s k) (i : ℕ) (stack heap : ℕ → UInt8) :
    Answers s (.execute i stack heap) := by
  cases hp : s.toMinion[i]? with
  | none => simp [Answers, hp]
  | some p =>
    cases hr : serve stack heap (s.files p.minion) p.bytes with
    | none => simp [Answers, hp, hr]
    | some r =>
      obtain ⟨f, b⟩ := r
      obtain ⟨j, n, job, o, htr, hreq⟩ := h.net.requests p (List.mem_of_getElem? hp)
      obtain ⟨g, hg, -, hmsg⟩ := (h.net.planned j job htr.job_eq).segment htr.op_eq
      have hcar := (h.issued.job htr.job_eq).1
      have hb : ∃ d, b = some d := by
        cases hop : job.req.op with
        | read =>
          obtain ⟨-, -, d, hd, -⟩ := served_read (h.data.serves _) hcar hop
            (List.mem_of_getElem? hg) hmsg hreq hr
          exact ⟨d, hd⟩
        | write =>
          obtain ⟨-, -, d, hd, -⟩ := served_write (h.data.serves _) hcar hop
            (List.mem_of_getElem? hg) hmsg hreq hr
          exact ⟨d, hd⟩
      obtain ⟨d, rfl⟩ := hb
      simp [Answers, hp, hr]

theorem Refines.flatReplies (h : Refines M s k) : FlatReplies s :=
  ⟨k, by simpa [Sys.requests_length] using h.turns.length, h.nbdOut_eq⟩

/-- When every request is replied, the flat drive has served them all. -/
theorem Refines.nbdOut_of_completed (h : Refines M s k)
    (hall : ∀ job ∈ s.master.jobs, job.completed = true) :
    s.master.nbdOut = (replies (fun _ => 0) s.requests).map some := by
  have hk : s.requests.length = k := by
    rw [Sys.requests_length]
    exact h.turns.length_eq hall
  rw [h.nbdOut_eq, ← hk, List.take_length]

/-- On an idle drive every request has been replied. -/
theorem Idle.completed (hi : Idle s) (hp : Prompt s) (hr : Running s) (hn : Net M s) :
    ∀ job ∈ s.master.jobs, job.completed = true := by
  intro job hjob
  obtain ⟨j, hj⟩ := List.mem_iff_getElem?.mp hjob
  exact quiescent_completed hp hn hj (hr j job hj) ⟨hi.1 job hjob, by simp [hi.2.1, hi.2.2]⟩

/-- In every execution with one request at a time whose reads ask for clean bytes and
whose sends replace no waiting callback, the replies are those of the flat drive, and
on an idle drive every request has been replied. -/
theorem one_by_one_flat (M : MinionManager) (as : List Action) (s : Sys)
    (h : run (Sys.step M) (fun s a => OneByOne M s a ∧ Separate M s a) as (Sys.init M) = some s) :
    FlatReplies s ∧
      (Idle s → s.master.nbdOut = (replies (fun _ => 0) s.requests).map some) := by
  have hinv : (∃ k, Refines M s k) ∧ Prompt s ∧ Running s := by
    refine run_invariant (P := fun s => (∃ k, Refines M s k) ∧ Prompt s ∧ Running s) ?_ h
      ⟨⟨0, init_refines M⟩, init_prompt M, init_running M⟩
    rintro s a s' ⟨hone, hsep⟩ hst ⟨⟨k, href⟩, hp, hr⟩
    have hturn : InTurn M s a := by
      cases a with
      | getTaskArgs req uid => exact ⟨hone.2.completed hp hr href.net, hone.1, hsep⟩
      | advance j sendOk beyond => exact hsep
      | execute i stack heap => trivial
      | answer i stack => trivial
      | _ => exact hone.elim
    have hans : Answers s a := by
      cases a with
      | execute i stack heap => exact href.answers i stack heap
      | getTaskArgs req uid => trivial
      | advance j sendOk beyond => trivial
      | answer i stack => trivial
      | _ => exact hone.elim
    have hun : Unharmed M s a := by
      cases a with
      | getTaskArgs req uid => exact hone.1.admissible
      | advance j sendOk beyond => exact ⟨hone, hsep⟩
      | _ => trivial
    obtain ⟨k', -, href'⟩ := step_refines hturn hst href
    exact ⟨⟨k', href'⟩, step_prompt hans hst href.net hp, step_running hun hst href.net hr⟩
  obtain ⟨⟨k, href⟩, hp, hr⟩ := hinv
  exact ⟨href.flatReplies, fun hi => href.nbdOut_of_completed (hi.completed hp hr href.net)⟩

/-! ### Runs of the small drive -/

/-- The socket has seen something else. -/
theorem not_flatReplies {n : ℕ} (hlen : s.requests.length = n + 1)
    (h : ¬ s.master.nbdOut = (replies (fun _ => 0) (s.requests.take (n + 1))).map some)
    (h' : ¬ s.master.nbdOut = (replies (fun _ => 0) (s.requests.take n)).map some) :
    ¬ FlatReplies s := by
  rintro ⟨k, hk, hrep⟩
  rw [hlen] at hk
  rcases hk with rfl | hk
  · exact h hrep
  · obtain rfl : n = k := by omega
    exact h' hrep

/-- A request inside one chunk: its command runs, both datagrams are executed, both
answers arrive. -/
def serveInOrder (req : Request) (uid : UID) (j : ℕ) : List Action :=
  [.getTaskArgs req uid] ++ List.replicate 5 (.advance j true fun _ => 0) ++
    [.execute 0 (fun _ => 0) fun _ => 0, .execute 0 (fun _ => 0) fun _ => 0,
      .answer 0 fun _ => 0, .answer 0 fun _ => 0]

def byteWrite (handle : UInt8) (offset : UInt64) (b : UInt8) : Request :=
  .smallWrite handle offset 1 [b] rfl

def byteRead (handle : UInt8) (offset : UInt64) : Request :=
  .smallRead handle offset 1

/-- The neighbour is written before the byte, so the byte is clean when it is read. -/
def rewrittenByte : List Action :=
  serveInOrder (byteWrite 1 0 7) 1 0 ++ serveInOrder (byteWrite 2 4 9) 2 1 ++
    serveInOrder (byteRead 3 4) 3 2

theorem one_by_one_flat_rewritten :
    ∃ s, run (Sys.step MinionManager.smallDrive)
        (fun s a => OneByOne MinionManager.smallDrive s a ∧ Separate MinionManager.smallDrive s a)
        rewrittenByte (Sys.init MinionManager.smallDrive) = some s ∧
      s.master.nbdOut.length = 49 ∧ FlatReplies s := by
  have hrun : (run (Sys.step MinionManager.smallDrive)
      (fun s a => OneByOne MinionManager.smallDrive s a ∧ Separate MinionManager.smallDrive s a)
      rewrittenByte (Sys.init MinionManager.smallDrive)).map (fun s => s.master.nbdOut.length) =
        some 49 := by decide +kernel
  obtain ⟨s, hs, hlen⟩ := Option.map_eq_some_iff.mp hrun
  exact ⟨s, hs, hlen, (one_by_one_flat MinionManager.smallDrive rewrittenByte s hs).1⟩

/-- A write to the first byte of the second chunk, then one to the first byte of the
drive, whose backup copy has the same cell, then a read of the former. -/
def neighbourWritten : List Action :=
  serveInOrder (byteWrite 1 4 9) 1 0 ++ serveInOrder (byteWrite 2 0 7) 2 1 ++
    serveInOrder (byteRead 3 4) 3 2

/-- All three requests are replied with success, one after another and in order, and the
read returns what the second write has stored. -/
theorem neighbour_write_read_back :
    ∃ s, run (Sys.step MinionManager.smallDrive)
        (fun s a => OneByOne MinionManager.smallDrive s a ∧ InOrder s a) neighbourWritten
        (Sys.init MinionManager.smallDrive) = some s ∧
      s.master.nbdOut = (NbdReply.header ⟨0, [0, 0, 0, 0, 0, 0, 0, 1]⟩ ++
        NbdReply.header ⟨0, [0, 0, 0, 0, 0, 0, 0, 2]⟩ ++
        (NbdReply.header ⟨0, [0, 0, 0, 0, 0, 0, 0, 3]⟩ ++ [7])).map some ∧
      contents (s.requests.take 2) 4 = 9 ∧ ¬ FlatReplies s := by
  have hrun : (run (Sys.step MinionManager.smallDrive)
      (fun s a => OneByOne MinionManager.smallDrive s a ∧ InOrder s a) neighbourWritten
      (Sys.init MinionManager.smallDrive)).map (fun s => (s.master.nbdOut, s.requests.length,
        contents (s.requests.take 2) 4,
        decide (s.master.nbdOut = (replies (fun _ => 0) (s.requests.take 3)).map some),
        decide (s.master.nbdOut = (replies (fun _ => 0) (s.requests.take 2)).map some))) =
      some ((NbdReply.header ⟨0, [0, 0, 0, 0, 0, 0, 0, 1]⟩ ++
        NbdReply.header ⟨0, [0, 0, 0, 0, 0, 0, 0, 2]⟩ ++
        (NbdReply.header ⟨0, [0, 0, 0, 0, 0, 0, 0, 3]⟩ ++ [7])).map some, 3, 9, false, false) := by
    decide +kernel
  obtain ⟨s, hs, he⟩ := Option.map_eq_some_iff.mp hrun
  simp only [Prod.mk.injEq, decide_eq_false_iff_not] at he
  obtain ⟨hout, hlen, hval, h3, h2⟩ := he
  exact ⟨s, hs, hout, hval, not_flatReplies hlen h3 h2⟩

end IoTDrive.System
