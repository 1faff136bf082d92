import IoTDrive.Nbd.ReplyStream

/-! A client and the master at the two ends of the NBD socket. The client gives every
request it waits for a handle of its own. `GetTaskArgs` takes the requests in order, drops a
disconnect, a flush and a trim without a reply, and starts the others under the UIDs that
they draw; commands and answers go on in any order, and the client reads as much as it likes at
any time. What it finds are whole replies to requests it waits for, each once. -/

namespace IoTDrive.Nbd

open Lib Message Master Stripe

/-- Requests on their way, the master, how much of its output the client has
read, and the client: the requests it waits for, a part of a reply, and the replies. -/
structure Link where
  toMaster : List ClientRequest
  master : MasterState
  read : ℕ
  pending : List ClientRequest
  buffer : List (Option UInt8)
  replies : List ClientReply

namespace Link

def init : Link := ⟨[], MasterState.init, 0, [], [], []⟩

inductive Event where
  | send (r : ClientRequest)
  | getTaskArgs (uid : UID)
  | advance (j : ℕ) (sendOk : Bool) (beyond : ℕ → UInt8)
  | wakeUp (m : ℕ) (stack : ℕ → UInt8) (d : List UInt8)
  | receive (k : ℕ)

/-- The client sends a request; a disconnect is not replied in any case. -/
def send (l : Link) (r : ClientRequest) : Link :=
  { l with
    toMaster := l.toMaster ++ [r]
    pending := if r.cmd = .disc then l.pending else l.pending ++ [r] }

/-- `GetTaskArgs` takes the next request; the arguments of a read or a write draw `uid`. -/
def getTaskArgs (l : Link) (uid : UID) : Option Link :=
  match l.toMaster with
  | [] => none
  | r :: rest =>
    if r.isIo then
      some { l with
        toMaster := rest
        master := l.master.getTaskArgs r.request uid }
    else some { l with toMaster := rest }

/-- The client reads `k` bytes, or as many as there are, and takes the replies in them. -/
def receive (l : Link) (k : ℕ) : Option Link :=
  let arrived := l.buffer ++ (l.master.nbdOut.drop l.read).take k
  (replyDecoder.drain arrived.length l.pending arrived).map fun p =>
    { l with
      read := min (l.read + k) l.master.nbdOut.length
      pending := p.1
      buffer := p.2.2
      replies := l.replies ++ p.2.1 }

def step (M : MinionManager) (l : Link) : Event → Option Link
  | .send r => some (l.send r)
  | .getTaskArgs uid => l.getTaskArgs uid
  | .advance j sendOk beyond =>
    (MasterState.step M l.master (.advance j sendOk beyond)).map fun s => { l with master := s }
  | .wakeUp m stack d =>
    (MasterState.step M l.master (.wakeUp m stack d)).map fun s => { l with master := s }
  | .receive k => l.receive k

/-- The client does not use a handle that it waits for, and no UID comes round again while
its request is pending. -/
def Distinct (l : Link) : Event → Prop
  | .send r => ∀ r' ∈ l.pending, r'.handle ≠ r.handle
  | .getTaskArgs uid => ∀ r ∈ l.toMaster.head?,
    MasterState.PendingDistinct l.master (.getTaskArgs r.request uid)
  | _ => True

instance (l : Link) (e : Event) : Decidable (Distinct l e) := by
  cases e <;> unfold Distinct <;> infer_instance

/-! ### Which request waits where -/

/-- The client waits exactly for the requests on their way and for those that are live at
the master, and no two of them have one handle. -/
structure Table (live : ℕ → Option Request) (toMaster pending : List ClientRequest) : Prop where
  nodup : (pending.map ClientRequest.handle).Nodup
  queue : ((toMaster.filter ClientRequest.isIo).map ClientRequest.handle).Nodup
  queued : ∀ r ∈ toMaster, r.isIo = true → r ∈ pending
  known : ∀ j q, live j = some q → ∃ r ∈ pending, r.isIo = true ∧ r.request = q
  apart : ∀ r ∈ toMaster, r.isIo = true → ∀ j q, live j = some q → r.handle ≠ q.handle
  distinct : ∀ j k q q', live j = some q → live k = some q' → q.handle = q'.handle → j = k
  owed : ∀ r ∈ pending, r.isIo = true → r ∈ toMaster ∨ ∃ j, live j = some r.request

namespace Table
variable {live : ℕ → Option Request} {toMaster pending : List ClientRequest}
  {r : ClientRequest}

theorem congr (h : Table live toMaster pending) {live' : ℕ → Option Request}
    (hl : ∀ j, live' j = live j) : Table live' toMaster pending := by
  obtain rfl : live' = live := funext hl
  exact h

theorem send (h : Table live toMaster pending) (hr : ∀ r' ∈ pending, r'.handle ≠ r.handle) :
    Table live (toMaster ++ [r]) (if r.cmd = .disc then pending else pending ++ [r]) := by
  have hio : r.isIo = true → r.cmd ≠ .disc := by
    cases hc : r.cmd <;> simp [ClientRequest.isIo, hc]
  have hsub : ∀ r' ∈ pending, r' ∈ if r.cmd = .disc then pending else pending ++ [r] := by
    intro r' hr'
    split_ifs
    · exact hr'
    · exact List.mem_append_left _ hr'
  have hnew : r.isIo = true → r ∈ if r.cmd = .disc then pending else pending ++ [r] := by
    intro hi
    rw [if_neg (hio hi)]
    simp
  constructor
  case nodup =>
    split_ifs
    · exact h.nodup
    · rw [List.map_append, List.nodup_append]
      refine ⟨h.nodup, by simp, ?_⟩
      rintro a ha b hb
      obtain ⟨r', hr', rfl⟩ := List.mem_map.mp ha
      obtain rfl : b = r.handle := by simpa using hb
      exact hr r' hr'
  case queue =>
    rw [List.filter_append, List.map_append, List.nodup_append]
    refine ⟨h.queue, ?_, ?_⟩
    · cases hi : r.isIo <;> simp [hi]
    · rintro a ha b hb
      obtain ⟨r', hr', rfl⟩ := List.mem_map.mp ha
      obtain ⟨hmem, hio'⟩ := List.mem_filter.mp hr'
      obtain ⟨r'', hr'', rfl⟩ := List.mem_map.mp hb
      obtain rfl : r'' = r := by simpa using (List.mem_filter.mp hr'').1
      exact hr r' (h.queued r' hmem hio')
  case queued =>
    intro r' hr' hi
    rcases List.mem_append.mp hr' with hr' | hr'
    · exact hsub r' (h.queued r' hr' hi)
    · obtain rfl : r' = r := by simpa using hr'
      exact hnew hi
  case known =>
    intro j q hl
    obtain ⟨r', hr', hi, he⟩ := h.known j q hl
    exact ⟨r', hsub r' hr', hi, he⟩
  case apart =>
    intro r' hr' hi j q hl
    rcases List.mem_append.mp hr' with hr' | hr'
    · exact h.apart r' hr' hi j q hl
    · obtain rfl : r' = r := by simpa using hr'
      obtain ⟨r'', hr'', -, rfl⟩ := h.known j q hl
      exact (hr r'' hr'').symm
  case distinct => exact h.distinct
  case owed =>
    intro r' hr' hi
    have hcases : r' ∈ pending ∨ r' = r := by
      split_ifs at hr'
      · exact .inl hr'
      · simpa using hr'
    rcases hcases with hr' | rfl
    · exact (h.owed r' hr' hi).imp_left (List.mem_append_left _)
    · exact .inl (by simp)

/-- A read or a write is live from now on. -/
theorem start (h : Table live (r :: toMaster) pending) (hi : r.isIo = true) {n : ℕ}
    (hn : live n = none) : Table (Function.update live n (some r.request)) toMaster pending := by
  have hr : r ∈ pending := h.queued r (by simp) hi
  have hqueue := h.queue
  rw [List.filter_cons_of_pos hi, List.map_cons, List.nodup_cons] at hqueue
  -- the requests that are live now
  have hcases : ∀ j q, Function.update live n (some r.request) j = some q →
      live j = some q ∨ j = n ∧ q = r.request := by
    intro j q hl
    by_cases hj : j = n
    · subst hj
      exact .inr ⟨rfl, by simpa using hl.symm⟩
    · exact .inl (by rwa [Function.update_of_ne hj] at hl)
  constructor
  case nodup => exact h.nodup
  case queue => exact hqueue.2
  case queued => exact fun r' hr' => h.queued r' (List.mem_cons_of_mem _ hr')
  case known =>
    intro j q hl
    rcases hcases j q hl with hl | ⟨-, rfl⟩
    · exact h.known j q hl
    · exact ⟨r, hr, hi, rfl⟩
  case apart =>
    intro r' hr' hi' j q hl
    rcases hcases j q hl with hl | ⟨-, rfl⟩
    · exact h.apart r' (List.mem_cons_of_mem _ hr') hi' j q hl
    · exact fun he => hqueue.1
        (List.mem_map.mpr ⟨r', List.mem_filter.mpr ⟨hr', hi'⟩, he⟩)
  case distinct =>
    intro j k q q' hj hk he
    rcases hcases j q hj with hlive | ⟨rfl, rfl⟩ <;>
      rcases hcases k q' hk with hlive' | ⟨rfl, rfl⟩
    · exact h.distinct j k q q' hlive hlive' he
    · exact absurd he.symm (h.apart r (by simp) hi j q hlive)
    · exact absurd he (h.apart r (by simp) hi k q' hlive')
    · rfl
  case owed =>
    intro r' hr' hi'
    rcases h.owed r' hr' hi' with hmem | ⟨j, hl⟩
    · rcases List.mem_cons.mp hmem with rfl | hmem
      · exact .inr ⟨n, Function.update_self ..⟩
      · exact .inl hmem
    · have hj : j ≠ n := fun he => by simp [he, hn] at hl
      exact .inr ⟨j, by rw [Function.update_of_ne hj, hl]⟩

/-- A request that is no read and no write is dropped. -/
theorem drop (h : Table live (r :: toMaster) pending) (hi : r.isIo = false) :
    Table live toMaster pending where
  nodup := h.nodup
  queue := by
    have hqueue := h.queue
    rwa [List.filter_cons_of_neg (by simp [hi])] at hqueue
  queued r' hr' := h.queued r' (List.mem_cons_of_mem _ hr')
  known := h.known
  apart r' hr' := h.apart r' (List.mem_cons_of_mem _ hr')
  distinct := h.distinct
  owed r' hr' hi' := by
    refine (h.owed r' hr' hi').imp_left fun hmem => ?_
    refine (List.mem_cons.mp hmem).resolve_left ?_
    rintro rfl
    rw [hi] at hi'
    cases hi'

/-- A live request is replied: it is live no more and the client does not wait for it. -/
theorem reply (h : Table live toMaster pending) {j : ℕ} {q : Request} (hl : live j = some q) :
    Table (Function.update live j none) toMaster
      (pending.filter fun r => r.handle != q.handle) := by
  have hold : ∀ k q', Function.update live j none k = some q' → live k = some q' ∧ k ≠ j := by
    intro k q' hk
    by_cases hkj : k = j
    · simp [hkj] at hk
    · exact ⟨by rwa [Function.update_of_ne hkj] at hk, hkj⟩
  constructor
  case nodup => exact h.nodup.sublist (List.filter_sublist.map _)
  case queue => exact h.queue
  case queued =>
    intro r' hr' hi
    exact List.mem_filter.mpr ⟨h.queued r' hr' hi, bne_iff_ne.mpr (h.apart r' hr' hi j q hl)⟩
  case known =>
    intro k q' hk
    obtain ⟨hk, hne⟩ := hold k q' hk
    obtain ⟨r', hr', hi, rfl⟩ := h.known k q' hk
    exact ⟨r', List.mem_filter.mpr ⟨hr', bne_iff_ne.mpr fun he =>
      hne (h.distinct k j _ q hk hl he)⟩, hi, rfl⟩
  case apart => exact fun r' hr' hi k q' hk => h.apart r' hr' hi k q' (hold k q' hk).1
  case distinct =>
    exact fun k k' q' q'' hk hk' => h.distinct k k' q' q'' (hold k q' hk).1 (hold k' q'' hk').1
  case owed =>
    intro r' hr' hi
    obtain ⟨hmem, hne⟩ := List.mem_filter.mp hr'
    refine (h.owed r' hmem hi).imp_right fun ⟨k, hk⟩ => ⟨k, ?_⟩
    have hkj : k ≠ j := by
      rintro rfl
      obtain rfl := Option.some.inj (hk.symm.trans hl)
      simp [ClientRequest.request] at hne
    rw [Function.update_of_ne hkj, hk]

/-- Several live requests are replied, one after the other. -/
theorem replies (h : Table live toMaster pending) (handle : ℕ → List UInt8) {js : List ℕ}
    (hjs : js.Nodup) (hl : ∀ j ∈ js, ∃ q, live j = some q ∧ handle j = q.handle) :
    Table (fun j => if j ∈ js then none else live j) toMaster
      (js.foldl (fun p j => p.filter fun r => r.handle != handle j) pending) := by
  induction js generalizing live pending with
  | nil => simpa using h
  | cons j js ih =>
    obtain ⟨hnot, hjs⟩ := List.nodup_cons.mp hjs
    obtain ⟨q, hq, he⟩ := hl j (by simp)
    have hrest := ih (h.reply hq) hjs fun k hk => by
      have hkj : k ≠ j := fun e => hnot (e ▸ hk)
      rw [Function.update_of_ne hkj]
      exact hl k (List.mem_cons_of_mem _ hk)
    rw [List.foldl_cons, he]
    apply hrest.congr
    intro k
    by_cases hkj : k = j
    · simp [hkj]
    · simp [hkj]

end Table

/-! ### The master between two reads -/

/-- What a client makes of the reply to a request. -/
def clientReply (job : Job) : ClientReply :=
  match job.ticket with
  | some t => ⟨job.req.handle, if t.outcome.result then 0 else eio, t.outcome.payload⟩
  | none => ⟨job.req.handle, 0, []⟩

def replyOf (s : MasterState) (j : ℕ) : ClientReply :=
  match s.jobs[j]? with
  | some job => clientReply job
  | none => ⟨[], 0, []⟩

/-- The request with number `j`, unless the client has its reply. -/
def live (s : MasterState) (front : List ℕ) (j : ℕ) : Option Request :=
  if j ∈ front then none else s.jobs[j]?.map Job.req

theorem clientReply_bytes {job : Job} (hc : job.completed = true) :
    job.reply = (clientReply job).bytes := by
  obtain ⟨t, ht, -⟩ := Option.any_eq_true _ _ |>.mp hc
  simp [Job.reply, clientReply, ht, NbdReply.bytes, ClientReply.bytes]

theorem replyAt_eq {s : MasterState} {order : List ℕ} (ho : s.Stream order) {j : ℕ}
    (hj : j ∈ order) : s.replyAt j = (replyOf s j).bytes := by
  obtain ⟨job, hjob, hc⟩ := (ho.2.1 j).mp hj
  simp only [MasterState.replyAt, replyOf, hjob]
  exact clientReply_bytes hc

/-- The reply fits the request that the client has sent. -/
theorem clientReply_answers {job : Job} (hs : job.Sound) (hc : job.completed = true)
    {r : ClientRequest} (hi : r.isIo = true) (hr : r.request = job.req) :
    (clientReply job).Answers r := by
  obtain ⟨t, payload, ht, hreply, -, hlen⟩ := hs.framed hc
  have hpay : (clientReply job).data = payload := by
    rw [clientReply_bytes hc] at hreply
    simpa [ClientReply.bytes, clientReply, ht] using hreply
  have hop : job.req.op = .read ↔ r.cmd = .read := by
    rw [← hr]
    cases hcmd : r.cmd <;> simp [ClientRequest.request, hcmd, ClientRequest.isIo] at hi ⊢
  refine ⟨by simp [clientReply, ht, ← hr, ClientRequest.request], ?_, ?_⟩
  · simp only [clientReply, ht]
    split_ifs <;> decide
  · have hlength : job.req.length = r.length := by rw [← hr]; rfl
    rw [hpay, hlen, hlength]
    cases hres : t.outcome.result <;> simp [clientReply, ht, hres, ClientRequest.dataSize, hop, eio]

/-- The replies `new` are written; the requests and the replies before stay as they are. -/
structure Writes (s s' : MasterState) (order new : List ℕ) : Prop where
  stream : s'.Stream (order ++ new)
  req : ∀ k : ℕ, s'.jobs[k]?.map Job.req = s.jobs[k]?.map Job.req
  reply : ∀ k ∈ order, replyOf s' k = replyOf s k

section Writes
variable {s s' : MasterState} {order : List ℕ} {j : ℕ} {job job' : Job}

theorem Writes.refl (ho : s.Stream order) : Writes s s order [] :=
  ⟨by rwa [List.append_nil], fun _ => rfl, fun _ _ => rfl⟩

theorem writes_of_quiet (hq : MasterState.Quiet s s' j job job') (hj : s.jobs[j]? = some job)
    (ho : s.Stream order) : Writes s s' order [] := by
  refine ⟨by rw [List.append_nil]; exact hq.stream hj ho, fun k => ?_, fun k hk => ?_⟩
  · rw [hq.getElem? hj]
    split_ifs with hkj
    · simp [hkj, hj, hq.req]
    · rfl
  · obtain ⟨job₁, h₁, hc⟩ := (ho.2.1 k).mp hk
    simp only [replyOf, hq.getElem? hj]
    split_ifs with hkj
    · subst hkj
      obtain rfl := Option.some.inj (hj.symm.trans h₁)
      simp [hj, clientReply, hq.reply hc, hq.req]
    · rfl

theorem writes_of_completes (hq : MasterState.Completes s s' j job job')
    (hj : s.jobs[j]? = some job) (ho : s.Stream order) : Writes s s' order [j] := by
  refine ⟨hq.stream hj ho, fun k => ?_, fun k hk => ?_⟩
  · rw [hq.getElem? hj]
    split_ifs with hkj
    · simp [hkj, hj, hq.req]
    · rfl
  · obtain ⟨job₁, h₁, hc⟩ := (ho.2.1 k).mp hk
    have hkj : k ≠ j := by
      rintro rfl
      rw [← Option.some.inj (hj.symm.trans h₁), hq.pending] at hc
      cases hc
    simp only [replyOf, hq.getElem? hj, if_neg hkj]

/-- A command writes nothing, an answer one reply at most. -/
theorem step_writes {M : MinionManager} {a : MasterState.Action}
    (hst : MasterState.step M s a = some s') (ha : ∀ req uid, a ≠ .getTaskArgs req uid)
    (hs : s.Inv) (ho : s.Stream order) : ∃ new, Writes s s' order new := by
  cases a with
  | getTaskArgs req uid => exact absurd rfl (ha req uid)
  | advance j sendOk beyond =>
    obtain ⟨⟨s₁, pk⟩, hadv, rfl⟩ := Option.map_eq_some_iff.mp hst
    obtain ⟨job, job', hj, hcases⟩ := MasterState.advance_cases hadv
    exact ⟨[], writes_of_quiet (hcases.quiet hj hs) hj ho⟩
  | wakeUp m stack d =>
    rcases MasterState.wakeUp_cases hst with rfl | ⟨msg, cb, -, hcb, he⟩
    · exact ⟨[], .refl ho⟩
    · obtain ⟨job, t, hj, -, ⟨-, hq⟩ | ⟨-, hq⟩⟩ := MasterState.onMirrorResponse_cases hs hcb msg he
      · exact ⟨[], writes_of_quiet hq hj ho⟩
      · exact ⟨[cb.ticket], writes_of_completes hq hj ho⟩

end Writes

/-! ### Both ends -/

/-- The client has the replies of `front`; those of `ahead` are in its buffer and in the
socket, the first of them not whole in the buffer. -/
structure InSync (l : Link) (front ahead : List ℕ) : Prop where
  inv : l.master.Inv
  stream : l.master.Stream (front ++ ahead)
  replies : l.replies = front.map (replyOf l.master)
  read_le : l.read ≤ l.master.nbdOut.length
  unread : l.buffer ++ l.master.nbdOut.drop l.read = ahead.flatMap l.master.replyAt
  short : ∀ j ∈ ahead.head?, l.buffer.length < (l.master.replyAt j).length
  table : Table (live l.master front) l.toMaster l.pending

theorem init_inSync : InSync init [] [] where
  inv := MasterState.init_inv
  stream := by simp [MasterState.Stream, init, MasterState.init]
  replies := rfl
  read_le := Nat.le_refl _
  unread := rfl
  short := by simp
  table := ⟨by simp [init], by simp [init], by simp [init], by simp [live, init, MasterState.init],
    by simp [init], by simp [live, init, MasterState.init], by simp [init]⟩

variable {l l' : Link} {front ahead : List ℕ}

/-- The requests whose replies are on the way are completed. -/
theorem InSync.completed (h : InSync l front ahead) {j : ℕ} (hj : j ∈ ahead) :
    ∃ job : Job, l.master.jobs[j]? = some job ∧ job.completed = true :=
  (h.stream.2.1 j).mp (List.mem_append_right _ hj)

/-- A step of the master between two reads. -/
theorem InSync.master (h : InSync l front ahead) {s' : MasterState} {new : List ℕ}
    (hs : s'.Inv) (hw : Writes l.master s' (front ++ ahead) new) :
    InSync { l with master := s' } front (ahead ++ new) := by
  have hkeep : ∀ k ∈ front ++ ahead, s'.replyAt k = l.master.replyAt k := by
    intro k hk
    rw [replyAt_eq hw.stream (List.mem_append_left _ hk), hw.reply k hk, replyAt_eq h.stream hk]
  have hout : s'.nbdOut = l.master.nbdOut ++ new.flatMap s'.replyAt := by
    rw [hw.stream.2.2, h.stream.2.2, List.flatMap_append]
    congr 1
    exact List.flatMap_congr hkeep
  have hunread : l.buffer ++ s'.nbdOut.drop l.read = (ahead ++ new).flatMap s'.replyAt := by
    rw [hout, List.drop_append_of_le_length h.read_le, ← List.append_assoc, h.unread,
      List.flatMap_append]
    congr 1
    exact (List.flatMap_congr fun k hk => hkeep k (List.mem_append_right _ hk)).symm
  constructor
  case inv => exact hs
  case stream =>
    rw [← List.append_assoc]
    exact hw.stream
  case replies =>
    rw [h.replies]
    exact List.map_congr_left fun k hk => (hw.reply k (List.mem_append_left _ hk)).symm
  case read_le =>
    rw [hout, List.length_append]
    exact h.read_le.trans (Nat.le_add_right _ _)
  case unread => exact hunread
  case short =>
    cases ahead with
    | nil =>
      -- nothing was on the way, so the buffer is empty
      obtain ⟨hb, -⟩ : l.buffer = [] ∧ _ := List.append_eq_nil_iff.mp h.unread
      intro j hj
      obtain ⟨job, hjob, hc⟩ := (hw.stream.2.1 j).mp
        (List.mem_append_right _ (List.mem_of_mem_head? hj))
      obtain ⟨t, payload, -, -, hlen, -⟩ := (hs.sound j job hjob).framed hc
      rw [hb, MasterState.replyAt, hjob]
      change 0 < job.reply.length
      omega
    | cons k ahead =>
      intro j hj
      obtain rfl : k = j := by simpa using hj
      rw [hkeep k (by simp)]
      exact h.short k (by simp)
  case table =>
    apply h.table.congr
    intro j
    rw [live, live, hw.req]

/-- `GetTaskArgs` starts a read or a write. -/
theorem InSync.start (h : InSync l front ahead) {r : ClientRequest} {rest : List ClientRequest}
    {uid : UID} (hr : l.toMaster = r :: rest) (hi : r.isIo = true)
    (hg : MasterState.PendingDistinct l.master (.getTaskArgs r.request uid)) :
    InSync { l with
      toMaster := rest
      master := l.master.getTaskArgs r.request uid } front ahead := by
  have hold : ∀ k ∈ front ++ ahead,
      (l.master.getTaskArgs r.request uid).jobs[k]? = l.master.jobs[k]? := by
    intro k hk
    obtain ⟨job, hj, -⟩ := (h.stream.2.1 k).mp hk
    rw [hj]
    exact MasterState.jobs_getTaskArgs.mpr (.inl hj)
  have hreply : ∀ k ∈ ahead, (l.master.getTaskArgs r.request uid).replyAt k =
      l.master.replyAt k := fun k hk => by
    rw [MasterState.replyAt, hold k (List.mem_append_right _ hk), MasterState.replyAt]
  have hnew : l.master.jobs.length ∉ front := fun hmem => by
    obtain ⟨job, hj, -⟩ := (h.stream.2.1 _).mp (List.mem_append_left ahead hmem)
    simp at hj
  have hnone : live l.master front l.master.jobs.length = none := by simp [live]
  constructor
  case inv => exact MasterState.getTaskArgs_inv h.inv hg
  case stream => exact MasterState.getTaskArgs_stream h.stream
  case replies =>
    rw [h.replies]
    exact List.map_congr_left fun k hk => by
      simp only [replyOf, hold k (List.mem_append_left _ hk)]
  case read_le => exact h.read_le
  case unread => exact h.unread.trans (List.flatMap_congr hreply).symm
  case short =>
    intro j hj
    rw [hreply j (List.mem_of_mem_head? hj)]
    exact h.short j hj
  case table =>
    have htable := h.table
    rw [hr] at htable
    apply (htable.start hi hnone).congr
    intro k
    by_cases hk : k = l.master.jobs.length
    · subst hk
      rw [Function.update_self, live, if_neg hnew]
      simp [MasterState.getTaskArgs]
    · rw [Function.update_of_ne hk, live, live]
      split_ifs
      · rfl
      · rcases Nat.lt_or_gt_of_ne hk with hlt | hgt
        · rw [MasterState.getTaskArgs, List.getElem?_append_left hlt]
        · rw [List.getElem?_eq_none (by simp [MasterState.getTaskArgs]; omega),
            List.getElem?_eq_none (by omega)]

/-- A request whose reply is on the way is live, and the client waits for it. -/
theorem InSync.ahead_live (h : InSync l front ahead) {j : ℕ} (hj : j ∈ ahead) :
    ∃ q, live l.master front j = some q ∧ (replyOf l.master j).handle = q.handle ∧
      ∃ r ∈ l.pending, (replyOf l.master j).Answers r := by
  obtain ⟨job, hjob, hc⟩ := (h.stream.2.1 j).mp (List.mem_append_right _ hj)
  have hfresh : j ∉ front := fun hf => (List.nodup_append.mp h.stream.1).2.2 j hf j hj rfl
  have hl : live l.master front j = some job.req := by simp [live, hfresh, hjob]
  have he : replyOf l.master j = clientReply job := by simp [replyOf, hjob]
  obtain ⟨r, hr, hi, hreq⟩ := h.table.known j _ hl
  have hans := clientReply_answers (h.inv.sound j job hjob) hc hi hreq
  refine ⟨job.req, hl, ?_, r, hr, he ▸ hans⟩
  rw [he, hans.1, ← hreq, ClientRequest.request]

/-- The replies on the way are frames for the client. -/
theorem InSync.frames (h : InSync l front ahead) :
    replyDecoder.Frames l.pending
      (ahead.map fun j => (replyOf l.master j, (replyOf l.master j).bytes)) := by
  have hcs : ((ahead.map (replyOf l.master)).map ClientReply.handle).Nodup := by
    rw [List.map_map]
    refine List.Nodup.map_on ?_ (List.nodup_append.mp h.stream.1).2.1
    intro j hj k hk he
    obtain ⟨q, hq, hjq, -⟩ := h.ahead_live hj
    obtain ⟨q', hq', hkq, -⟩ := h.ahead_live hk
    exact h.table.distinct j k q q' hq hq' (hjq.symm.trans (he.trans hkq))
  have hans : ∀ c ∈ ahead.map (replyOf l.master), ∃ r ∈ l.pending, c.Answers r := by
    intro c hc
    obtain ⟨j, hj, rfl⟩ := List.mem_map.mp hc
    obtain ⟨-, -, -, hr⟩ := h.ahead_live hj
    exact hr
  simpa [List.map_map, Function.comp_def] using frames_of_answers h.table.nodup hcs hans

/-- However much the client reads, it finds whole replies to requests it waits for. -/
theorem InSync.receive (h : InSync l front ahead) (k : ℕ) :
    ∃ l' done rest, l.receive k = some l' ∧ ahead = done ++ rest ∧
      InSync l' (front ++ done) rest ∧ l'.master = l.master ∧ l'.toMaster = l.toMaster := by
  have hwire : Decoder.wire (ahead.map fun j => (replyOf l.master j, (replyOf l.master j).bytes)) =
      ahead.flatMap l.master.replyAt := by
    rw [Decoder.wire, List.flatMap_map]
    exact List.flatMap_congr fun j hj => (replyAt_eq h.stream (List.mem_append_right _ hj)).symm
  have hpre : l.buffer ++ (l.master.nbdOut.drop l.read).take k <+:
      Decoder.wire (ahead.map fun j => (replyOf l.master j, (replyOf l.master j).bytes)) := by
    rw [hwire, ← h.unread]
    exact (List.prefix_append_right_inj _).mpr (List.take_prefix _ _)
  obtain ⟨dones, aheads, rest, hsplit, hbuffer, hdrain, hshort⟩ :=
    h.frames.drain hpre (Nat.le_refl _)
  obtain ⟨done, ahead', rfl, rfl, rfl⟩ := List.map_eq_append_iff.mp hsplit
  have hnext : (done.map fun j => (replyOf l.master j, (replyOf l.master j).bytes)).foldl
        (fun p f => replyDecoder.next p f.1) l.pending =
      done.foldl (fun p j => p.filter fun r => r.handle != (replyOf l.master j).handle)
        l.pending := List.foldl_map
  have hreceive : l.receive k = some
      { l with
        read := min (l.read + k) l.master.nbdOut.length
        pending := done.foldl
          (fun p j => p.filter fun r => r.handle != (replyOf l.master j).handle) l.pending
        buffer := rest
        replies := l.replies ++ done.map (replyOf l.master) } := by
    rw [Link.receive, hdrain, hnext, List.map_map]
    rfl
  refine ⟨_, done, ahead', hreceive, rfl, ?_, rfl, rfl⟩
  have hwireDone : Decoder.wire (done.map fun j =>
      (replyOf l.master j, (replyOf l.master j).bytes)) = done.flatMap l.master.replyAt := by
    rw [Decoder.wire, List.flatMap_map]
    exact List.flatMap_congr fun j hj =>
      (replyAt_eq h.stream (List.mem_append_right _ (List.mem_append_left _ hj))).symm
  constructor
  case inv => exact h.inv
  case stream =>
    rw [List.append_assoc]
    exact h.stream
  case replies => rw [h.replies, List.map_append]
  case read_le => exact Nat.min_le_right _ _
  case unread =>
    have hdrop : l.master.nbdOut.drop (min (l.read + k) l.master.nbdOut.length) =
        (l.master.nbdOut.drop l.read).drop k := by
      rw [List.drop_drop]
      rcases Nat.le_total (l.read + k) l.master.nbdOut.length with hle | hle
      · rw [Nat.min_eq_left hle]
      · rw [Nat.min_eq_right hle, List.drop_length, List.drop_eq_nil_of_le hle]
    have hall := h.unread
    rw [← List.take_append_drop k (l.master.nbdOut.drop l.read), ← List.append_assoc, hbuffer,
      hwireDone, List.flatMap_append, List.append_assoc] at hall
    rw [hdrop]
    exact List.append_cancel_left hall
  case short =>
    intro j hj
    rw [replyAt_eq h.stream (List.mem_append_right _ (List.mem_append_right _
      (List.mem_of_mem_head? hj)))]
    exact hshort _ (by rw [List.head?_map]; exact Option.mem_map_of_mem _ hj)
  case table =>
    have hn := (List.nodup_append.mp h.stream.1).2.1
    have hlive : ∀ j ∈ done, ∃ q, live l.master front j = some q ∧
        (replyOf l.master j).handle = q.handle := fun j hj => by
      obtain ⟨q, hq, he, -⟩ := h.ahead_live (List.mem_append_left _ hj)
      exact ⟨q, hq, he⟩
    have htable := h.table.replies (fun j => (replyOf l.master j).handle)
      (List.nodup_append.mp hn).1 hlive
    apply htable.congr
    intro j
    by_cases hj : j ∈ done
    · simp [live, hj]
    · simp [live, hj]

/-! ### Runs -/

theorem step_inSync {M : MinionManager} {e : Event} (hg : Distinct l e)
    (hst : step M l e = some l') (h : ∃ front ahead, InSync l front ahead) :
    ∃ front ahead, InSync l' front ahead := by
  obtain ⟨front, ahead, h⟩ := h
  cases e with
  | send r =>
    obtain rfl := Option.some.inj hst
    exact ⟨front, ahead, h.inv, h.stream, h.replies, h.read_le, h.unread, h.short,
      h.table.send hg⟩
  | getTaskArgs uid =>
    simp only [step, getTaskArgs] at hst
    cases hr : l.toMaster with
    | nil => simp [hr] at hst
    | cons r rest =>
      simp only [hr] at hst
      split_ifs at hst with hi
      · obtain rfl := Option.some.inj hst
        exact ⟨front, ahead, h.start hr hi (hg r (by simp [hr]))⟩
      · obtain rfl := Option.some.inj hst
        have htable := h.table
        rw [hr] at htable
        exact ⟨front, ahead, h.inv, h.stream, h.replies, h.read_le, h.unread, h.short,
          htable.drop (Bool.not_eq_true _ ▸ hi)⟩
  | advance j sendOk beyond =>
    obtain ⟨s', hs', rfl⟩ := Option.map_eq_some_iff.mp hst
    obtain ⟨new, hw⟩ := step_writes hs' (by simp) h.inv h.stream
    have hinv : s'.Inv := MasterState.step_inv (a := .advance j sendOk beyond) trivial hs' h.inv
    exact ⟨front, ahead ++ new, h.master hinv hw⟩
  | wakeUp m stack d =>
    obtain ⟨s', hs', rfl⟩ := Option.map_eq_some_iff.mp hst
    obtain ⟨new, hw⟩ := step_writes hs' (by simp) h.inv h.stream
    have hinv : s'.Inv := MasterState.step_inv (a := .wakeUp m stack d) trivial hs' h.inv
    exact ⟨front, ahead ++ new, h.master hinv hw⟩
  | receive k =>
    obtain ⟨l₁, done, rest, hk, -, hsync, -⟩ := h.receive k
    obtain rfl := Option.some.inj (hk.symm.trans hst)
    exact ⟨front ++ done, rest, hsync⟩

/-- A client that has read everything has all replies. -/
theorem InSync.all_read (h : InSync l front ahead) (hr : l.read = l.master.nbdOut.length) :
    ahead = [] ∧ l.buffer = [] := by
  have hunread := h.unread
  rw [hr, List.drop_length, List.append_nil] at hunread
  cases ahead with
  | nil => exact ⟨rfl, hunread⟩
  | cons j ahead =>
    have hshort := h.short j (by simp)
    rw [hunread, List.flatMap_cons, List.length_append] at hshort
    omega

theorem request_inj {r r' : ClientRequest} (hi : r.isIo = true) (hi' : r'.isIo = true)
    (h : r.request = r'.request) : r = r' := by
  obtain ⟨cmd, handle, offset, length, data, _, _⟩ := r
  obtain ⟨cmd', handle', offset', length', data', _, _⟩ := r'
  simp only [ClientRequest.request, Request.mk.injEq] at h
  obtain ⟨rfl, hop, rfl, rfl, rfl⟩ := h
  obtain rfl : cmd = cmd' := by
    cases cmd <;> cases cmd' <;> simp_all [ClientRequest.isIo]
  rfl

/-- As long as the client uses no handle that it waits for: whatever is in flight, and however
much it reads at a time, it never finds bytes that are no reply to a request it waits
for; it has the replies of the first completed requests, in order and each once, and of
all of them when it has read everything; and it waits exactly for the reads and writes
that are on their way, at work, or completed with a reply still to be read. -/
theorem client_in_sync (M : MinionManager) (es : List Event) (l : Link)
    (h : run (step M) Distinct es init = some l) :
    (∀ k, (l.receive k).isSome) ∧
      ∃ front ahead, l.master.Stream (front ++ ahead) ∧
        l.replies = front.map (replyOf l.master) ∧
        (l.read = l.master.nbdOut.length → ahead = [] ∧ l.buffer = []) ∧
        ∀ r : ClientRequest, r.isIo = true → (r ∈ l.pending ↔ r ∈ l.toMaster ∨
          ∃ (j : ℕ) (job : Job), l.master.jobs[j]? = some job ∧ job.req = r.request ∧
            j ∉ front) := by
  obtain ⟨front, ahead, hs⟩ := run_invariant (P := fun l => ∃ front ahead, InSync l front ahead)
    (fun _ _ _ hg hst hi => step_inSync hg hst hi) h ⟨[], [], init_inSync⟩
  refine ⟨fun k => ?_, front, ahead, hs.stream, hs.replies, hs.all_read, fun r hi => ?_⟩
  · obtain ⟨l', -, -, hk, -⟩ := hs.receive k
    rw [hk]
    rfl
  have hlive : ∀ j, live l.master front j = some r.request ↔
      ∃ job : Job, l.master.jobs[j]? = some job ∧ job.req = r.request ∧ j ∉ front := by
    intro j
    by_cases hj : j ∈ front
    · simp [live, hj]
    · simp [live, hj]
  constructor
  · intro hr
    refine (hs.table.owed r hr hi).imp_right fun ⟨j, hj⟩ => ⟨j, (hlive j).mp hj⟩
  · rintro (hr | ⟨j, hj⟩)
    · exact hs.table.queued r hr hi
    · obtain ⟨r', hr', hi', he⟩ := hs.table.known j _ ((hlive j).mpr hj)
      exact request_inj hi' hi he ▸ hr'

/-- A write, a flush and a read. The read overtakes the write; its reply of 17 bytes arrives in
two parts, and the flush stays without one. -/
def overtaken : List Event :=
  let write : ClientRequest := .smallWrite 7 1 2 [5, 6] twoBytes_length
  let flush : ClientRequest := .smallFlush 3
  let read : ClientRequest := .smallRead 8 8 1
  let answer := fun m : AMessage => (m.datagram fun _ => 0).getD []
  let idle := fun _ : ℕ => (0 : UInt8)
  [.send write, .send flush, .send read, .getTaskArgs 0, .getTaskArgs 1, .getTaskArgs 1,
    .advance 0 true idle, .advance 1 true idle, .advance 1 true idle, .advance 0 true idle,
    .advance 1 true idle, .advance 1 true idle,
    .wakeUp 2 idle (answer (.readReceive 1 1 1 (some [9]))), .receive 10,
    .advance 0 true idle, .receive 10]

theorem client_in_sync_overtaken :
    ∃ l, run (step MinionManager.smallDrive) Distinct overtaken init = some l ∧
      l.replies = [⟨[0, 0, 0, 0, 0, 0, 0, 8], 0, [some 9]⟩] ∧ l.buffer = [] ∧
      l.pending.map ClientRequest.cmd = [.write, .flush] ∧ ∀ k, (l.receive k).isSome := by
  have hrun : (run (step MinionManager.smallDrive) Distinct overtaken init).map
      (fun l => (l.replies, l.buffer, l.pending.map ClientRequest.cmd)) =
        some ([⟨[0, 0, 0, 0, 0, 0, 0, 8], 0, [some 9]⟩], [], [.write, .flush]) := by
    decide +kernel
  obtain ⟨l, hl, he⟩ := Option.map_eq_some_iff.mp hrun
  simp only [Prod.mk.injEq] at he
  exact ⟨l, hl, he.1, he.2.1, he.2.2, (client_in_sync MinionManager.smallDrive overtaken l hl).1⟩

end Link

end IoTDrive.Nbd
