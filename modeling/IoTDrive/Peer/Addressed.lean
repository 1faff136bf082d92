import IoTDrive.Peer.Socket

/-! Where requests and answers go. A socket sends to the sender of the last datagram it
received, so an answer reaches the sender of its request exactly if no datagram of another
sender came in between, and a request reaches the minion exactly if nothing else
was heard on its proxy last. Both are stated over whole runs: the right
destinations at the end say that every send was made at such a moment. -/

namespace IoTDrive.Peer

open Lib Message Minion

variable {A κ : Type*}

/-! ### Requests of the master -/

namespace MasterEnd

/-- Every request went to the given address. -/
def SentTo (addr : A) (s : MasterEnd A κ) : Prop := ∀ e ∈ s.sent, e.1 = addr

/-- A request that is sent is sent while the last datagram received came from the given
address, or before any was received. -/
def HeardFrom (addr : A) (s : MasterEnd A κ) : MasterEvent A κ → Prop
  | .addReadTask _ _ _ _ ok => ok = true → s.arrivals.getLast?.getD addr = addr
  | .addWriteTask _ _ _ _ _ ok => ok = true → s.arrivals.getLast?.getD addr = addr
  | .wakeUp .. => True

instance [DecidableEq A] (addr : A) (s : MasterEnd A κ) (a : MasterEvent A κ) :
    Decidable (HeardFrom addr s a) :=
  match a with
  | .addReadTask .. => inferInstanceAs (Decidable (_ → _))
  | .addWriteTask .. => inferInstanceAs (Decidable (_ → _))
  | .wakeUp .. => inferInstanceAs (Decidable True)

/-- The socket holds the sender of the last datagram, and before one came the address it
was constructed with. -/
def Tracks (addr : A) (s : MasterEnd A κ) : Prop :=
  s.proxy.socket.serverAddr = s.arrivals.getLast?.getD addr

variable {addr : A} {s s' : MasterEnd A κ} {a : MasterEvent A κ}

/-- A step sends one request where the socket points, or fails to, or receives one datagram. -/
theorem step_cases (addr : A) (h : step s a = some s') :
    (∃ m ok, s'.sent = s.sent ++ ((s.proxy.socket.sendTo ok).map (·, m)).toList ∧
      s'.arrivals = s.arrivals ∧ s'.proxy.socket = s.proxy.socket ∧
      (HeardFrom addr s a ↔ (ok = true → s.arrivals.getLast?.getD addr = addr))) ∨
    ∃ sender, s'.sent = s.sent ∧ s'.arrivals = s.arrivals ++ [sender] ∧
      s'.proxy.socket.serverAddr = sender ∧ HeardFrom addr s a := by
  cases a with
  | addReadTask uid offset length onDone ok =>
    simp only [step, Option.some.injEq] at h
    subst h
    exact .inl ⟨_, ok, rfl, rfl, rfl, Iff.rfl⟩
  | addWriteTask uid offset length data onDone ok =>
    simp only [step, Option.some.injEq] at h
    subst h
    exact .inl ⟨_, ok, rfl, rfl, rfl, Iff.rfl⟩
  | wakeUp sender stack d =>
    refine .inr ⟨sender, ?_⟩
    simp only [step] at h
    split at h
    · cases h
    · next proxy w hw hp =>
      simp only [Option.some.injEq] at h
      subst h
      have hsender : proxy.socket.serverAddr = sender := by
        have : (s.proxy.onMinionFDWakeUp sender stack d).1.socket.serverAddr = sender := rfl
        rw [hp] at this
        exact this
      exact ⟨rfl, rfl, hsender, trivial⟩

theorem step_tracks (h : step s a = some s') (hs : Tracks addr s) : Tracks addr s' := by
  rcases step_cases addr h with ⟨m, ok, -, harr, hsock, -⟩ | ⟨sender, -, harr, hsock, -⟩
  · rw [Tracks, harr, hsock]
    exact hs
  · rw [Tracks, harr, hsock, List.getLast?_concat, Option.getD_some]

theorem step_sentTo (h : step s a = some s') (hs : Tracks addr s) :
    SentTo addr s' ↔ SentTo addr s ∧ HeardFrom addr s a := by
  rcases step_cases addr h with ⟨m, ok, hsent, -, -, hheard⟩ | ⟨sender, hsent, -, -, hheard⟩
  · rw [hheard, ← hs]
    cases ok
    · simp [SentTo, hsent, UDPSocket.sendTo]
    · simp [SentTo, hsent, UDPSocket.sendTo, or_imp, forall_and]
  · simp [SentTo, hsent, hheard]

end MasterEnd

/-! ### Answers of a minion -/

namespace MinionEnd

/-- Every answer went to the sender of the request with its UID. -/
def SentBack (s : MinionEnd A) : Prop := ∀ e ∈ s.sent, ∃ args,
  s.arrivals[e.2.request]? = some (e.1, .args args) ∧ argsUID args = e.2.message.getUID

/-- An answer that is sent is sent while the last datagram received came from the sender of
its request. -/
def AskedLast (s : MinionEnd A) : MinionEvent A → Prop
  | .send i ok => ok = true → ∀ answer ∈ s.ready[i]?,
    s.arrivals.getLast?.map Prod.fst = s.arrivals[answer.request]?.map Prod.fst
  | _ => True

instance [DecidableEq A] (s : MinionEnd A) (a : MinionEvent A) : Decidable (AskedLast s a) :=
  match a with
  | .send i _ => inferInstanceAs (Decidable (_ → ∀ answer ∈ s.ready[i]?, _ = _))
  | .receive .. => inferInstanceAs (Decidable True)
  | .run .. => inferInstanceAs (Decidable True)

/-- A message about the `k`-th datagram, a request with the same UID. -/
def Answers (s : MinionEnd A) (k : ℕ) (m : AMessage) : Prop := ∃ sender args,
  s.arrivals[k]? = some (sender, .args args) ∧ argsUID args = m.getUID

/-- Where the tasks, the answers and the socket's address come from. -/
structure Tracked (s : MinionEnd A) : Prop where
  addr : ∀ e ∈ s.arrivals.getLast?, s.proxy.socket.serverAddr = e.1
  tasks : ∀ t ∈ s.tasks, ∃ sender, s.arrivals[t.request]? = some (sender, .args t.args)
  ready : ∀ a ∈ s.ready, s.Answers a.request a.message
  sent : ∀ e ∈ s.sent, s.Answers e.2.request e.2.message

theorem init_tracked (own : A) (file : FileManager) : (init own file).Tracked := by
  constructor <;> simp [init]

/-- The answer of a task carries the UID of its arguments. -/
theorem runTask_uid {heap : ℕ → UInt8} {f : FileManager} {args : MinionArgs} {m : AMessage}
    (h : (runTask heap f args).2 = some m) : argsUID args = m.getUID := by
  cases args with
  | read uid offset length =>
    simp only [runTask, MinionArgs.getKey, createCommand, runCommand, Option.some.injEq] at h
    subst h
    rfl
  | write uid offset length buffer =>
    simp only [runTask, MinionArgs.getKey, createCommand, runCommand, Option.some.injEq] at h
    subst h
    rfl

variable {s s' : MinionEnd A} {a : MinionEvent A}

/-- Datagrams are only added, so what is known of the earlier ones stays. -/
theorem getElem?_concat {k : ℕ} {e : A × TaskReceipt} (x : A × TaskReceipt)
    (h : s.arrivals[k]? = some e) : (s.arrivals ++ [x])[k]? = some e := by
  rw [List.getElem?_append_left (List.getElem?_eq_some_iff.mp h).1, h]

theorem step_receive {sender : A} {stack : ℕ → UInt8} {d : List UInt8}
    (h : step s (.receive sender stack d) = some s') :
    s'.proxy.socket.serverAddr = sender ∧ s'.ready = s.ready ∧ s'.sent = s.sent ∧
      ∃ receipt, s'.arrivals = s.arrivals ++ [(sender, receipt)] ∧
        ∀ t ∈ s'.tasks, t ∈ s.tasks ∨ t.request = s.arrivals.length ∧ receipt = .args t.args := by
  simp only [step, MasterProxy.getTaskArgs] at h
  split at h
  · next args hr =>
    simp only [Option.some.injEq] at h
    subst h
    refine ⟨rfl, rfl, rfl, _, rfl, fun t ht => ?_⟩
    rcases List.mem_append.mp ht with ht | ht
    · exact .inl ht
    · obtain rfl := List.mem_singleton.mp ht
      exact .inr ⟨rfl, hr⟩
  · simp only [Option.some.injEq] at h
    subst h
    exact ⟨rfl, rfl, rfl, _, rfl, fun t ht => .inl ht⟩
  · cases h

theorem step_run {i : ℕ} {heap : ℕ → UInt8} (h : step s (.run i heap) = some s') :
    s'.proxy = s.proxy ∧ s'.sent = s.sent ∧ s'.arrivals = s.arrivals ∧
      (∀ t ∈ s'.tasks, t ∈ s.tasks) ∧ ∀ a ∈ s'.ready, a ∈ s.ready ∨
        ∃ t ∈ s.tasks, a.request = t.request ∧ argsUID t.args = a.message.getUID := by
  obtain ⟨task, htask, rfl⟩ := Option.map_eq_some_iff.mp h
  refine ⟨rfl, rfl, rfl, fun t ht => List.mem_of_mem_eraseIdx ht, fun a ha => ?_⟩
  rcases List.mem_append.mp ha with ha | ha
  · exact .inl ha
  · obtain ⟨m, hm, rfl⟩ := Option.map_eq_some_iff.mp (Option.mem_toList.mp ha)
    exact .inr ⟨task, List.mem_of_getElem? htask, rfl, runTask_uid hm⟩

theorem step_send {i : ℕ} {ok : Bool} (h : step s (.send i ok) = some s') :
    ∃ answer, s.ready[i]? = some answer ∧ s'.proxy = s.proxy ∧ s'.arrivals = s.arrivals ∧
      s'.tasks = s.tasks ∧ (∀ a ∈ s'.ready, a ∈ s.ready) ∧
      s'.sent = s.sent ++ ((s.proxy.sendResponse ok).map (·, answer)).toList := by
  obtain ⟨answer, hanswer, rfl⟩ := Option.map_eq_some_iff.mp h
  exact ⟨answer, hanswer, rfl, rfl, rfl, fun a ha => List.mem_of_mem_eraseIdx ha, rfl⟩

theorem Answers.concat {k : ℕ} {m : AMessage} {x : A × TaskReceipt} (h : s.Answers k m)
    (harr : s'.arrivals = s.arrivals ++ [x]) : s'.Answers k m := by
  obtain ⟨sender, args, hk, huid⟩ := h
  exact ⟨sender, args, by rw [harr]; exact getElem?_concat x hk, huid⟩

theorem step_tracked (h : step s a = some s') (hs : s.Tracked) : s'.Tracked := by
  cases a with
  | receive sender stack d =>
    obtain ⟨haddr, hready, hsent, receipt, harr, htasks⟩ := step_receive h
    constructor
    case addr => simp [harr, haddr]
    case tasks =>
      intro t ht
      rw [harr]
      rcases htasks t ht with ht | ⟨hreq, rfl⟩
      · obtain ⟨sender', hk⟩ := hs.tasks t ht
        exact ⟨sender', getElem?_concat _ hk⟩
      · exact ⟨sender, by rw [hreq, List.getElem?_concat_length]⟩
    case ready =>
      rw [hready]
      exact fun a ha => (hs.ready a ha).concat harr
    case sent =>
      rw [hsent]
      exact fun e he => (hs.sent e he).concat harr
  | run i heap =>
    obtain ⟨hproxy, hsent, harr, htasks, hready⟩ := step_run h
    constructor
    case addr => rw [hproxy, harr]; exact hs.addr
    case tasks => rw [harr]; exact fun t ht => hs.tasks t (htasks t ht)
    case ready =>
      intro a ha
      rw [Answers, harr]
      rcases hready a ha with ha | ⟨t, ht, hreq, huid⟩
      · exact hs.ready a ha
      · obtain ⟨sender, hk⟩ := hs.tasks t ht
        exact ⟨sender, t.args, by rw [hreq]; exact hk, huid⟩
    case sent =>
      rw [hsent]
      intro e he
      rw [Answers, harr]
      exact hs.sent e he
  | send i ok =>
    obtain ⟨answer, hanswer, hproxy, harr, htasks, hready, hsent⟩ := step_send h
    constructor
    case addr => rw [hproxy, harr]; exact hs.addr
    case tasks => rw [harr, htasks]; exact hs.tasks
    case ready =>
      intro a ha
      rw [Answers, harr]
      exact hs.ready a (hready a ha)
    case sent =>
      intro e he
      rw [Answers, harr]
      rw [hsent] at he
      rcases List.mem_append.mp he with he | he
      · exact hs.sent e he
      · obtain ⟨-, -, rfl⟩ := Option.map_eq_some_iff.mp (Option.mem_toList.mp he)
        exact hs.ready answer (List.mem_of_getElem? hanswer)

/-- An answer about to be sent goes back to where its request came from exactly if that
sender was the last one heard. -/
theorem sendsBack_iff (hs : s.Tracked) {i : ℕ} {answer : Answer}
    (h : s.ready[i]? = some answer) :
    (∃ args, s.arrivals[answer.request]? = some (s.proxy.socket.serverAddr, .args args) ∧
      argsUID args = answer.message.getUID) ↔ AskedLast s (.send i true) := by
  obtain ⟨sender, args, hk, huid⟩ := hs.ready answer (List.mem_of_getElem? h)
  have hne : s.arrivals ≠ [] := by
    intro hnil
    simp [hnil] at hk
  obtain ⟨e, he⟩ := List.getLast?_isSome.mpr hne |> Option.isSome_iff_exists.mp
  have haddr := hs.addr e he
  simp only [AskedLast, h, Option.mem_def, Option.some.injEq, forall_eq', hk, he, Option.map_some,
    haddr, forall_const]
  constructor
  · rintro ⟨args', hpair, -⟩
    exact (congrArg Prod.fst hpair).symm
  · rintro rfl
    exact ⟨args, rfl, huid⟩

theorem step_sentBack (h : step s a = some s') (hs : s.Tracked) :
    SentBack s' ↔ SentBack s ∧ AskedLast s a := by
  cases a with
  | receive sender stack d =>
    obtain ⟨-, -, hsent, receipt, harr, -⟩ := step_receive h
    have hsame : ∀ e ∈ s.sent, s'.arrivals[e.2.request]? = s.arrivals[e.2.request]? := by
      intro e he
      obtain ⟨sender', args, hk, -⟩ := hs.sent e he
      rw [harr, getElem?_concat _ hk, hk]
    simp only [SentBack, hsent, AskedLast, and_true]
    exact forall₂_congr fun e he => by rw [hsame e he]
  | run i heap =>
    obtain ⟨-, hsent, harr, -⟩ := step_run h
    simp only [SentBack, hsent, harr, AskedLast, and_true]
  | send i ok =>
    obtain ⟨answer, hanswer, -, harr, -, -, hsent⟩ := step_send h
    cases ok with
    | false =>
      simp [SentBack, hsent, harr, AskedLast, MasterProxy.sendResponse, UDPSocket.sendTo]
    | true =>
      rw [← sendsBack_iff hs hanswer]
      simp only [SentBack, hsent, harr, MasterProxy.sendResponse, UDPSocket.sendTo, if_true,
        Option.map_some, Option.toList_some, List.mem_append, List.mem_singleton, or_imp,
        forall_and, forall_eq]

end MinionEnd

/-- Every request of a proxy goes to the minion it was constructed for, and every answer of a
minion goes back to where its request came from, exactly in the runs whose sends are
all made while the last datagram heard came from there. -/
theorem right_peer_iff {A κ : Type*} [DecidableEq A] (addr : A) (file : FileManager) :
    (∀ (as : List (MasterEvent A κ)) (s : MasterEnd A κ),
      run MasterEnd.step (fun _ _ => True) as (.init addr) = some s →
      (s.SentTo addr ↔
        run MasterEnd.step (MasterEnd.HeardFrom addr) as (.init addr) = some s)) ∧
    (∀ (as : List (MinionEvent A)) (s : MinionEnd A),
      run MinionEnd.step (fun _ _ => True) as (.init addr file) = some s →
      (s.SentBack ↔ run MinionEnd.step MinionEnd.AskedLast as (.init addr file) = some s)) := by
  constructor
  · intro as s h
    have hinit : (MasterEnd.init addr : MasterEnd A κ).SentTo addr := by
      simp [MasterEnd.SentTo, MasterEnd.init]
    have htracks : (MasterEnd.init addr : MasterEnd A κ).Tracks addr := rfl
    rw [run_exact (fun _ _ _ => MasterEnd.step_tracks) (fun _ _ _ => MasterEnd.step_sentTo) h
      htracks]
    simp [hinit]
  · intro as s h
    have hinit : (MinionEnd.init addr file).SentBack := by
      simp [MinionEnd.SentBack, MinionEnd.init]
    rw [run_exact (fun _ _ _ => MinionEnd.step_tracked) (fun _ _ _ => MinionEnd.step_sentBack) h
      (MinionEnd.init_tracked addr file)]
    simp [hinit]

/-- A request for one byte, as it travels. -/
def byteRequest (uid : UID) : List UInt8 :=
  ((AMessage.readSend uid 0 1).datagram fun _ => 0).getD []

/-- One master, answered before anyone else is heard. -/
theorem right_peer_oneMaster :
    ∃ s, run MinionEnd.step (fun _ _ => True)
        [.receive 1 (fun _ => 0) (byteRequest 5), .run 0 (fun _ => 0), .send 0 true]
        MinionEnd.small = some s ∧ s.sent.length = 1 ∧ s.SentBack := by
  have hrun : (run MinionEnd.step MinionEnd.AskedLast
      [.receive 1 (fun _ => 0) (byteRequest 5), .run 0 (fun _ => 0), .send 0 true]
      MinionEnd.small).map (·.sent.length) = some 1 := by decide +kernel
  obtain ⟨s, hs, hlen⟩ := Option.map_eq_some_iff.mp hrun
  have hfree := run_mono (fun _ _ _ => trivial) hs
  exact ⟨s, hfree, hlen, ((@right_peer_iff ℕ Unit _ 7 _).2 _ s hfree).mpr hs⟩

/-- A second sender is heard before the first is answered: the answer goes to the second. -/
theorem answer_to_wrong_peer :
    ∃ s, run MinionEnd.step (fun _ _ => True)
        [.receive 1 (fun _ => 0) (byteRequest 5), .receive 2 (fun _ => 0) (byteRequest 6),
          .run 0 (fun _ => 0), .send 0 true] MinionEnd.small = some s ∧ ¬ s.SentBack := by
  have hrun : (run MinionEnd.step (fun _ _ => True)
      [.receive 1 (fun _ => 0) (byteRequest 5), .receive 2 (fun _ => 0) (byteRequest 6),
        .run 0 (fun _ => 0), .send 0 true] MinionEnd.small).map
      (fun s => (s.sent.map fun e => (e.1, e.2.request), s.arrivals.map Prod.fst)) =
      some ([(2, 0)], [1, 2]) := by decide +kernel
  obtain ⟨s, hs, hval⟩ := Option.map_eq_some_iff.mp hrun
  simp only [Prod.mk.injEq] at hval
  refine ⟨s, hs, fun hback => ?_⟩
  obtain ⟨e, he, hpair⟩ := List.mem_map.mp
    (hval.1 ▸ List.mem_singleton.mpr rfl : ((2, 0) : ℕ × ℕ) ∈ s.sent.map fun e => (e.1, e.2.request))
  obtain ⟨args, hk, -⟩ := hback e he
  simp only [Prod.mk.injEq] at hpair
  have hfirst : (s.arrivals.map Prod.fst)[0]? = some 2 := by
    rw [List.getElem?_map, ← hpair.2, hk, Option.map_some, hpair.1]
  rw [hval.2] at hfirst
  simp at hfirst

end IoTDrive.Peer
