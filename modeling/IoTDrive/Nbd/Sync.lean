import IoTDrive.Nbd.Stream

/-! The NBD stream stays in sync. However `recv` cuts the stream, `Receive` returns the
next bytes of it in order and leaves the rest; the swapped words of a header are
the words that were serialised; so each call of `GetTaskArgs` takes one request
off the stream and returns what that request asks for. -/

namespace IoTDrive.Nbd

open Lib Message Master

/-! ### The receive loop -/

/-- The returns of `recv` that bring bytes. -/
def readies (schedule : List Recv) : ℕ :=
  schedule.countP fun r => match r with
    | .ready _ => true
    | _ => false

/-- A call for `xs.length` bytes returns exactly `xs`, or still waits because `recv` has
returned with bytes fewer times than there are bytes. -/
theorem receive_exact (closed : Bool) (schedule : List Recv) (xs buffer rest : List UInt8)
    (h : .error ∉ schedule) :
    (receive closed schedule xs.length buffer (xs ++ rest) = .waiting ∧
      readies schedule < xs.length) ∨
    ∃ schedule', receive closed schedule xs.length buffer (xs ++ rest) =
        .done (buffer ++ xs) rest schedule' ∧
      schedule' <:+ schedule ∧ readies schedule ≤ readies schedule' + xs.length := by
  induction schedule generalizing xs buffer with
  | nil =>
    cases xs with
    | nil => exact .inr ⟨[], by simp [receive], List.suffix_refl _, by simp⟩
    | cons x xs => exact .inl ⟨by simp [receive], by simp [readies]⟩
  | cons r schedule ih =>
    rcases xs with _ | ⟨x, xs⟩
    · exact .inr ⟨r :: schedule, by simp [receive], List.suffix_refl _, by simp⟩
    have htail : .error ∉ schedule := fun hmem => h (List.mem_cons_of_mem _ hmem)
    cases r with
    | eintr =>
      rcases ih (x :: xs) buffer htail with ⟨hw, hlt⟩ | ⟨schedule', hd, hsuf, hle⟩
      · exact .inl ⟨hw, by simpa [readies] using hlt⟩
      · exact .inr ⟨schedule', hd, hsuf.trans (List.suffix_cons _ _), by simpa [readies] using hle⟩
    | error => exact absurd List.mem_cons_self h
    | ready k =>
      -- the bytes of this fragment, and what is still wanted behind it
      have hmin : min (k + 1) (min (xs.length + 1) (x :: xs ++ rest).length) =
          min (k + 1) (xs.length + 1) := by simp
      obtain ⟨m, hm⟩ : ∃ m, min (k + 1) (xs.length + 1) = m + 1 :=
        ⟨min k xs.length, by omega⟩
      have hle : m + 1 ≤ (x :: xs).length := by simp; omega
      have hlen : ((x :: xs).drop (m + 1)).length = (x :: xs).length - (m + 1) := by simp
      have hstep : receive closed (.ready k :: schedule) (x :: xs).length buffer (x :: xs ++ rest) =
          receive closed schedule ((x :: xs).drop (m + 1)).length
            (buffer ++ (x :: xs).take (m + 1)) ((x :: xs).drop (m + 1) ++ rest) := by
        rw [hlen, List.length_cons, receive, hmin, hm, if_neg (Nat.succ_ne_zero m),
          List.take_append_of_le_length hle, List.drop_append_of_le_length hle]
      have hready : readies (.ready k :: schedule) = readies schedule + 1 := by simp [readies]
      rw [hstep, hready]
      rcases ih ((x :: xs).drop (m + 1)) (buffer ++ (x :: xs).take (m + 1)) htail with
        ⟨hw, hlt⟩ | ⟨schedule', hd, hsuf, hle'⟩
      · exact .inl ⟨hw, by rw [hlen] at hlt; omega⟩
      · refine .inr ⟨schedule', ?_, hsuf.trans (List.suffix_cons _ _), by rw [hlen] at hle'; omega⟩
        rw [hd, List.append_assoc, List.take_append_drop]

/-! ### Byte order -/

theorem ntohl_beBytes {n : ℕ} (h : n < 2 ^ 32) :
    ntohl (UInt32.ofNat (leNat (beBytes 4 n))) = UInt32.ofNat n := by
  have hlt := leNat_lt_of_length (beBytes_length 4 n)
  have hback : leBytes 4 (leNat (beBytes 4 n)) = beBytes 4 n := by
    simpa using leBytes_leNat (beBytes 4 n)
  rw [ntohl, UInt32.toNat_ofNat', Nat.mod_eq_of_lt hlt, hback, beBytes, List.reverse_reverse,
    leNat_leBytes_of_lt (by simpa using h)]

/-- The two halves of a 64-bit word. -/
theorem halves {lo hi : ℕ} (hlo : lo < 2 ^ 32) (hhi : hi < 2 ^ 32) :
    (UInt64.ofNat (lo + 2 ^ 32 * hi) &&& 0xffffffff).toUInt32 = UInt32.ofNat lo ∧
      (UInt64.ofNat (lo + 2 ^ 32 * hi) >>> 32).toUInt32 = UInt32.ofNat hi := by
  have hlt : lo + 2 ^ 32 * hi < 2 ^ 64 := by omega
  constructor
  · apply UInt32.toNat_inj.mp
    rw [UInt64.toNat_toUInt32, UInt64.toNat_and, UInt64.toNat_ofNat', Nat.mod_eq_of_lt hlt,
      UInt32.toNat_ofNat']
    have hmask : (0xffffffff : UInt64).toNat = 2 ^ 32 - 1 := rfl
    rw [hmask, Nat.and_two_pow_sub_one_eq_mod]
    omega
  · apply UInt32.toNat_inj.mp
    rw [UInt64.toNat_toUInt32, UInt64.toNat_shiftRight, UInt64.toNat_ofNat',
      Nat.mod_eq_of_lt hlt, UInt32.toNat_ofNat', Nat.shiftRight_eq_div_pow]
    have hshift : (32 : UInt64).toNat % 64 = 32 := rfl
    rw [hshift]
    omega

theorem ntohll_beBytes (x : UInt64) :
    ntohll (UInt64.ofNat (leNat (beBytes 8 x.toNat))) = x := by
  have hx := x.toNat_lt
  have hhigh : x.toNat / 2 ^ 32 < 2 ^ 32 := by omega
  have hsplit : leNat (beBytes 8 x.toNat) =
      leNat (beBytes 4 (x.toNat / 2 ^ 32)) + 2 ^ 32 * leNat (beBytes 4 (x.toNat % 2 ^ 32)) := by
    have hlow : beBytes 4 (x.toNat % 2 ^ 32) = beBytes 4 x.toNat := by
      rw [beBytes, beBytes, ← leBytes_mod 4 x.toNat]
      norm_num
    rw [show 8 = 4 + 4 from rfl, beBytes_add, leNat_append, beBytes_length, hlow]
    norm_num
  obtain ⟨hlo, hhi⟩ := halves (leNat_lt_of_length (beBytes_length 4 (x.toNat / 2 ^ 32)))
    (leNat_lt_of_length (beBytes_length 4 (x.toNat % 2 ^ 32)))
  rw [ntohll, hsplit, hlo, hhi, ntohl_beBytes hhigh, ntohl_beBytes (Nat.mod_lt _ (by decide))]
  apply UInt64.toNat_inj.mp
  rw [UInt64.toNat_or, UInt64.toNat_shiftLeft, UInt32.toNat_toUInt64, UInt32.toNat_toUInt64,
    UInt32.toNat_ofNat', UInt32.toNat_ofNat', Nat.mod_eq_of_lt hhigh, Nat.mod_mod]
  have hshift : (32 : UInt64).toNat % 64 = 32 := rfl
  rw [hshift, Nat.shiftLeft_eq, Nat.mod_eq_of_lt (by omega), ← Nat.shiftLeft_eq,
    ← Nat.shiftLeft_add_eq_or_of_lt (Nat.mod_lt _ (by decide)), Nat.shiftLeft_eq]
  omega

/-! ### Requests on the wire -/

/-- The commands of a client. -/
inductive NbdCmd where
  | read | write | disc | flush | trim
  deriving DecidableEq, Repr

def NbdCmd.code : NbdCmd → ℕ
  | .read => 0
  | .write => 1
  | .disc => 2
  | .flush => 3
  | .trim => 4

/-- A request as the client means it. Only a write carries a payload. -/
structure ClientRequest where
  cmd : NbdCmd
  handle : List UInt8
  offset : UInt64
  length : UInt32
  data : List UInt8
  handle_length : handle.length = 8
  data_length : data.length = if cmd = .write then length.toNat else 0

namespace ClientRequest

/-- The packed header in network byte order. -/
def header (r : ClientRequest) : List UInt8 :=
  beBytes 4 requestMagic.toNat ++ (beBytes 4 r.cmd.code ++ (r.handle ++
    (beBytes 8 r.offset.toNat ++ beBytes 4 r.length.toNat)))

def wire (r : ClientRequest) : List UInt8 := r.header ++ r.data

/-- A request that starts a task. -/
def isIo (r : ClientRequest) : Bool := r.cmd == .read || r.cmd == .write

/-- What the call for this request returns. -/
def expected (r : ClientRequest) (uid : UID) : Returned :=
  match r.cmd with
  | .read => .args (.read uid r.offset r.length.toUInt64)
  | .write => .args (.write uid r.offset r.length.toUInt64 (some r.data))
  | _ => .null

/-- How far the call comes with the socket. -/
def parsed (r : ClientRequest) : Parsed :=
  match r.cmd with
  | .read => .request (NbdRequest.memcpy r.header) none
  | .write => .request (NbdRequest.memcpy r.header) (some r.data)
  | _ => .returned .null

@[simp] theorem header_length (r : ClientRequest) : r.header.length = requestSize := by
  simp [header, r.handle_length, requestSize]

/-- A field in the middle of a buffer. -/
theorem take_drop_append {xs w rest : List UInt8} {k n : ℕ} (hk : xs.length = k)
    (hn : w.length = n) : ((xs ++ (w ++ rest)).drop k).take n = w := by
  rw [List.drop_left' hk, List.take_left' hn]

theorem memcpy_header (r : ClientRequest) :
    NbdRequest.memcpy r.header =
      ⟨UInt32.ofNat (leNat (beBytes 4 requestMagic.toNat)),
        UInt32.ofNat (leNat (beBytes 4 r.cmd.code)), r.handle,
        UInt64.ofNat (leNat (beBytes 8 r.offset.toNat)),
        UInt32.ofNat (leNat (beBytes 4 r.length.toNat))⟩ := by
  have hmagic : (r.header.drop 0).take 4 = beBytes 4 requestMagic.toNat := by
    rw [List.drop_zero, header, List.take_left' (beBytes_length _ _)]
  have htype : (r.header.drop 4).take 4 = beBytes 4 r.cmd.code :=
    take_drop_append (beBytes_length _ _) (beBytes_length _ _)
  have hhandle : (r.header.drop 8).take 8 = r.handle := by
    rw [header, ← List.append_assoc]
    exact take_drop_append (by simp) r.handle_length
  have hstart : (r.header.drop 16).take 8 = beBytes 8 r.offset.toNat := by
    rw [header, ← List.append_assoc, ← List.append_assoc]
    exact take_drop_append (by simp [r.handle_length]) (beBytes_length _ _)
  have hlen : (r.header.drop 24).take 4 = beBytes 4 r.length.toNat := by
    rw [header, ← List.append_assoc, ← List.append_assoc, ← List.append_assoc,
      ← List.append_nil (beBytes 4 r.length.toNat)]
    exact take_drop_append (by simp [r.handle_length]) (beBytes_length _ _)
  simp only [NbdRequest.memcpy, loadU32, loadU64, hmagic, htype, hhandle, hstart, hlen]

theorem ntohl_type (r : ClientRequest) :
    (ntohl (UInt32.ofNat (leNat (beBytes 4 r.cmd.code)))).toNat = r.cmd.code := by
  have hlt : r.cmd.code < 2 ^ 32 := by cases r.cmd <;> decide
  rw [ntohl_beBytes hlt, UInt32.toNat_ofNat', Nat.mod_eq_of_lt hlt]

theorem ntohl_length (r : ClientRequest) :
    ntohl (UInt32.ofNat (leNat (beBytes 4 r.length.toNat))) = r.length := by
  rw [ntohl_beBytes r.length.toNat_lt, UInt32.ofNat_toNat]

theorem htonl_magic : UInt32.ofNat (leNat (beBytes 4 requestMagic.toNat)) = ntohl requestMagic := by
  decide

/-- A call on a stream that starts with a request takes that request off the stream, unless `recv`
has not yet returned often enough. -/
theorem receiveRequest_wire (r : ClientRequest) {s : NBDProxy} {schedule : List Recv}
    {rest : List UInt8} (hs : s.stream = r.wire ++ rest) (he : .error ∉ schedule) :
    (s.receiveRequest schedule = none ∧ readies schedule < r.wire.length) ∨
      s.receiveRequest schedule = some ({ s with stream := rest }, r.parsed) := by
  have hwire : r.wire.length = requestSize + r.data.length := by
    rw [wire, List.length_append, header_length]
  have hdata := r.data_length
  rw [NBDProxy.receiveRequest, hs, wire, List.append_assoc, ← r.header_length]
  rcases receive_exact s.closed schedule r.header [] (r.data ++ rest) he with
    ⟨hw, hlt⟩ | ⟨schedule', hd, hsuf, hle⟩
  · rw [hw]
    exact .inl ⟨rfl, by rw [← wire, hwire, ← r.header_length]; omega⟩
  rw [hd]
  simp only [List.nil_append, memcpy_header, htonl_magic, ne_eq, not_true_eq_false, if_false,
    ntohl_type, ntohl_length]
  cases hc : r.cmd with
  | read =>
    have hnil : r.data = [] := by simpa [hc] using hdata
    right
    simp [NbdCmd.code, hnil, parsed, hc, memcpy_header, htonl_magic]
  | write =>
    have hlen : r.data.length = r.length.toNat := by simpa [hc] using hdata
    have hpayload := receive_exact s.closed schedule' r.data [] rest
      (fun h => he (hsuf.subset h))
    rw [hlen] at hpayload
    simp only [NbdCmd.code]
    rcases hpayload with ⟨hw, hlt⟩ | ⟨schedule'', hd', -, -⟩
    · rw [hw]
      exact .inl ⟨rfl, by rw [← wire, hwire, ← r.header_length]; omega⟩
    · right
      rw [hd']
      simp [parsed, hc, memcpy_header, NbdCmd.code, htonl_magic]
  | disc =>
    have hnil : r.data = [] := by simpa [hc] using hdata
    right
    simp [NbdCmd.code, hnil, parsed, hc]
  | flush =>
    have hnil : r.data = [] := by simpa [hc] using hdata
    right
    simp [NbdCmd.code, hnil, parsed, hc]
  | trim =>
    have hnil : r.data = [] := by simpa [hc] using hdata
    right
    simp [NbdCmd.code, hnil, parsed, hc]

/-- A call that returns without arguments was for no read and no write. -/
theorem returned_of_parsed {r : ClientRequest} {x : Returned} (h : r.parsed = .returned x)
    (uid : UID) : r.isIo = false ∧ x = r.expected uid := by
  cases hc : r.cmd <;> simp [parsed, hc] at h <;> simp [isIo, expected, hc, ← h]

theorem isIo_of_parsed {r : ClientRequest} {request : NbdRequest} {data : Option (List UInt8)}
    (h : r.parsed = .request request data) : r.isIo = true := by
  cases hc : r.cmd <;> simp [parsed, hc] at h <;> simp [isIo, hc]

/-- The arguments are those of the request, and so is the handle. -/
theorem args_of_parsed {r : ClientRequest} {request : NbdRequest} {data : Option (List UInt8)}
    (h : r.parsed = .request request data) :
    request.handle = r.handle ∧ ∀ uid, .args (request.createdArgs data uid) = r.expected uid := by
  have hmemcpy := r.memcpy_header
  cases hc : r.cmd <;> simp only [parsed, hc, Parsed.request.injEq, reduceCtorEq] at h
  · obtain ⟨rfl, rfl⟩ := h
    simp [hmemcpy, NbdRequest.createdArgs, createArgs, ntohll_beBytes, ntohl_length, expected, hc]
  · obtain ⟨rfl, rfl⟩ := h
    simp [hmemcpy, NbdRequest.createdArgs, createArgs, ntohll_beBytes, ntohl_length, expected, hc]

end ClientRequest

/-! ### Calls one after another -/

/-- Where a call is that has its request: before its arguments draw a UID, between the read and
the write back of `s_counter++`, or before the `emplace`. -/
inductive Stage where
  | received
  | drawing (value : UInt64)
  | created (uid : UID)
  deriving DecidableEq, Repr

/-- A call of `GetTaskArgs` that has received its request. -/
structure Call where
  request : NbdRequest
  data : Option (List UInt8)
  stage : Stage
  deriving DecidableEq, Repr

/-- What a call has returned and, where these are arguments, the reply pending under their UID
when it has stored its own. -/
structure Outcome where
  returned : Returned
  pending : Option NbdReply
  deriving DecidableEq, Repr

/-- The NBD reactor at work: the proxy, `UID::s_counter`, the call in hand, and what the calls
before it have come to. A ticket that completes draws a UID for its result in another thread;
`completion` is what it has read of the counter and not written back. -/
structure Session where
  proxy : NBDProxy
  counter : UInt64
  call : Option Call
  completion : Option UInt64
  outcomes : List Outcome

inductive Event where
  | getTaskArgs (schedule : List Recv)
  | nbdRead
  | nbdWrite
  | emplace
  | completionRead
  | completionWrite
  | onNBDResponse (uid : UID)
  deriving DecidableEq

namespace Session

def init (stream : List UInt8) (closed : Bool) : Session :=
  ⟨⟨stream, closed, fun _ => none⟩, 0, none, none, []⟩

/-- The steps of the two threads. -/
def step (s : Session) : Event → Option Session
  | .getTaskArgs schedule =>
    match s.call with
    | none => (s.proxy.receiveRequest schedule).map fun p =>
      match p.2 with
      | .returned r => { s with proxy := p.1, outcomes := s.outcomes ++ [⟨r, none⟩] }
      | .request request data => { s with proxy := p.1, call := some ⟨request, data, .received⟩ }
    | some _ => none
  | .nbdRead =>
    match s.call with
    | some ⟨request, data, .received⟩ =>
      some { s with call := some ⟨request, data, .drawing s.counter⟩ }
    | _ => none
  | .nbdWrite =>
    match s.call with
    | some ⟨request, data, .drawing v⟩ =>
      some { s with counter := v + 1, call := some ⟨request, data, .created v⟩ }
    | _ => none
  | .emplace =>
    match s.call with
    | some ⟨request, data, .created uid⟩ =>
      let proxy := s.proxy.emplace uid request
      some { s with
        proxy
        call := none
        outcomes := s.outcomes ++ [⟨.args (request.createdArgs data uid), proxy.responses uid⟩] }
    | _ => none
  | .completionRead =>
    match s.completion with
    | none => some { s with completion := some s.counter }
    | some _ => none
  | .completionWrite => s.completion.map fun v => { s with counter := v + 1, completion := none }
  | .onNBDResponse uid => some { s with proxy := s.proxy.onNBDResponse uid }

/-- The calls begun. -/
def begun (s : Session) : ℕ := s.outcomes.length + if s.call.isSome then 1 else 0

/-- `recv` fails in no other way than by an interrupt, and there is one call for each request. -/
def Within (reqs : List ClientRequest) (s : Session) : Event → Prop
  | .getTaskArgs schedule => .error ∉ schedule ∧ s.begun < reqs.length
  | _ => True

instance (reqs : List ClientRequest) (s : Session) : (e : Event) → Decidable (Within reqs s e)
  | .getTaskArgs _ => inferInstanceAs (Decidable (_ ∧ _))
  | .nbdRead => isTrue trivial
  | .nbdWrite => isTrue trivial
  | .emplace => isTrue trivial
  | .completionRead => isTrue trivial
  | .completionWrite => isTrue trivial
  | .onNBDResponse _ => isTrue trivial

def wireAll (reqs : List ClientRequest) : List UInt8 := reqs.flatMap ClientRequest.wire

/-- What the call for a request should come to: it returns what the request asks for, and if that
is a task, a reply with the handle of the request is pending. -/
def Outcome.Right (r : ClientRequest) (o : Outcome) : Prop :=
  (∃ uid, o.returned = r.expected uid) ∧ (r.isIo = true → o.pending = some ⟨0, r.handle⟩)

/-- After `n` calls the stream holds the requests from the `n`-th on; the next call returns once
`recv` has brought bytes often enough; and each call has come to what it should. -/
structure InSync (reqs : List ClientRequest) (tail : List UInt8) (s : Session) : Prop where
  stream : s.proxy.stream = wireAll (reqs.drop s.begun) ++ tail
  returns : s.call = none → ∀ r, reqs[s.outcomes.length]? = some r → ∀ schedule,
    .error ∉ schedule → r.wire.length ≤ readies schedule →
      (s.proxy.receiveRequest schedule).isSome = true
  outcomes : ∀ (i : ℕ) r o, reqs[i]? = some r → s.outcomes[i]? = some o → Outcome.Right r o

/-- A call that stores its reply finds no other one under the UID that its arguments have drawn. -/
def Vacant (s : Session) : Event → Prop
  | .emplace =>
    match s.call with
    | some ⟨request, _, .created uid⟩ =>
      ∀ reply ∈ s.proxy.responses uid, reply = ⟨0, request.handle⟩
    | _ => True
  | _ => True

instance (s : Session) : (e : Event) → Decidable (Vacant s e)
  | .emplace =>
    match h : s.call with
    | some ⟨request, _, .created uid⟩ => decidable_of_iff
        (∀ reply ∈ s.proxy.responses uid, reply = ⟨0, request.handle⟩) (by rw [Vacant, h])
    | some ⟨_, _, .received⟩ => isTrue (by rw [Vacant, h]; trivial)
    | some ⟨_, _, .drawing _⟩ => isTrue (by rw [Vacant, h]; trivial)
    | none => isTrue (by rw [Vacant, h]; trivial)
  | .getTaskArgs _ => isTrue trivial
  | .nbdRead => isTrue trivial
  | .nbdWrite => isTrue trivial
  | .completionRead => isTrue trivial
  | .completionWrite => isTrue trivial
  | .onNBDResponse _ => isTrue trivial

variable {reqs : List ClientRequest} {tail : List UInt8} {s s' : Session} {e : Event}

theorem vacant_of_ne (h : e ≠ .emplace) : Vacant s e := by
  cases e with
  | emplace => exact absurd rfl h
  | _ => trivial

/-! ### What the steps keep -/

/-- The part of `InSync` that no UID can harm, with the request of the call in hand. -/
structure Tracks (reqs : List ClientRequest) (tail : List UInt8) (s : Session) : Prop where
  stream : s.proxy.stream = wireAll (reqs.drop s.begun) ++ tail
  inHand : ∀ c ∈ s.call, ∃ r, reqs[s.outcomes.length]? = some r ∧
    r.parsed = .request c.request c.data
  returned : ∀ (i : ℕ) r o, reqs[i]? = some r → s.outcomes[i]? = some o →
    ∃ uid, o.returned = r.expected uid

/-- The replies that the calls have left. -/
def Stored (reqs : List ClientRequest) (s : Session) : Prop :=
  ∀ (i : ℕ) r o, reqs[i]? = some r → s.outcomes[i]? = some o → r.isIo = true →
    o.pending = some ⟨0, r.handle⟩

/-- The call for the next request. -/
theorem Tracks.receiveRequest (h : Tracks reqs tail s) (hcall : s.call = none) {r : ClientRequest}
    (hr : reqs[s.outcomes.length]? = some r) {schedule : List Recv} (he : .error ∉ schedule) :
    (s.proxy.receiveRequest schedule = none ∧ readies schedule < r.wire.length) ∨
      s.proxy.receiveRequest schedule = some
        ({ s.proxy with stream := wireAll (reqs.drop (s.outcomes.length + 1)) ++ tail },
          r.parsed) := by
  apply r.receiveRequest_wire _ he
  have hstream := h.stream
  simp only [begun, hcall, Option.isSome_none, Bool.false_eq_true, if_false, Nat.add_zero]
    at hstream
  rw [hstream, ← List.cons_getElem_drop_succ (h := (List.getElem?_eq_some_iff.mp hr).1),
    (List.getElem?_eq_some_iff.mp hr).2]
  simp [wireAll]

theorem Tracks.inSync_iff (h : Tracks reqs tail s) : InSync reqs tail s ↔ Stored reqs s := by
  constructor
  · intro hs i r o hr ho
    exact (hs.outcomes i r o hr ho).2
  · intro hstored
    refine ⟨h.stream, ?_, fun i r o hr ho => ⟨h.returned i r o hr ho, hstored i r o hr ho⟩⟩
    intro hcall r hr schedule he henough
    rcases h.receiveRequest hcall hr he with ⟨-, hlt⟩ | hsome
    · omega
    · rw [hsome]
      rfl

theorem Tracks.congr (h : Tracks reqs tail s) (hstream : s'.proxy.stream = s.proxy.stream)
    (hcall : s'.call.map (fun c => (c.request, c.data)) =
      s.call.map fun c => (c.request, c.data))
    (hout : s'.outcomes = s.outcomes) : Tracks reqs tail s' := by
  have hsome : s'.call.isSome = s.call.isSome := by
    simpa using congrArg Option.isSome hcall
  refine ⟨?_, ?_, ?_⟩
  · simp only [begun, hout, hsome, hstream]
    exact h.stream
  · intro c hc
    rw [Option.mem_def.mp hc] at hcall
    obtain ⟨c₀, hc₀, he⟩ := Option.map_eq_some_iff.mp hcall.symm
    obtain ⟨hrequest, hdata⟩ := Prod.mk.inj he
    rw [hout, ← hrequest, ← hdata]
    exact h.inHand c₀ hc₀
  · rw [hout]
    exact h.returned

theorem getElem?_concat {α : Type*} {l : List α} {a b : α} {i : ℕ} (h : (l ++ [a])[i]? = some b) :
    l[i]? = some b ∨ i = l.length ∧ b = a := by
  rw [List.getElem?_append] at h
  split_ifs at h with hi
  · exact .inl h
  · rcases Nat.eq_zero_or_pos (i - l.length) with hz | hpos
    · rw [hz] at h
      exact .inr ⟨by omega, (Option.some.inj h).symm⟩
    · rw [List.getElem?_eq_none (show [a].length ≤ i - l.length from hpos)] at h
      cases h

/-- The call in hand returns. -/
theorem Tracks.concat (h : Tracks reqs tail s) {r : ClientRequest}
    (hr : reqs[s.outcomes.length]? = some r) {o : Outcome} (ho : ∃ uid, o.returned = r.expected uid)
    (hstream : s'.proxy.stream = wireAll (reqs.drop (s.outcomes.length + 1)) ++ tail)
    (hcall : s'.call = none) (hout : s'.outcomes = s.outcomes ++ [o]) : Tracks reqs tail s' := by
  refine ⟨?_, ?_, ?_⟩
  · simp only [begun, hout, hcall, List.length_append, List.length_singleton, Option.isSome_none,
      Bool.false_eq_true, if_false, Nat.add_zero]
    exact hstream
  · intro c hc
    rw [hcall] at hc
    cases hc
  · intro i r' o' hr' ho'
    rw [hout] at ho'
    rcases getElem?_concat ho' with hold | ⟨rfl, rfl⟩
    · exact h.returned i r' o' hr' hold
    · obtain rfl := Option.some.inj (hr.symm.trans hr')
      exact ho

/-- A call that is begun has its request in hand, or has returned because there is nothing to do. -/
theorem Tracks.getTaskArgs_cases (h : Tracks reqs tail s) {schedule : List Recv}
    (hg : Within reqs s (.getTaskArgs schedule))
    (hst : step s (.getTaskArgs schedule) = some s') :
    (s'.outcomes = s.outcomes ∧ Tracks reqs tail s') ∨
    ∃ r, reqs[s.outcomes.length]? = some r ∧ r.isIo = false ∧
      s'.outcomes = s.outcomes ++ [⟨r.expected 0, none⟩] ∧ Tracks reqs tail s' := by
  obtain ⟨he, hlt⟩ := hg
  simp only [step] at hst
  cases hcall : s.call with
  | some c =>
    rw [hcall] at hst
    cases hst
  | none =>
    simp only [hcall] at hst
    simp only [begun, hcall, Option.isSome_none, Bool.false_eq_true, if_false, Nat.add_zero]
      at hlt
    obtain ⟨r, hr⟩ : ∃ r, reqs[s.outcomes.length]? = some r :=
      ⟨_, List.getElem?_eq_getElem hlt⟩
    obtain ⟨p, hp, hst⟩ := Option.map_eq_some_iff.mp hst
    rcases h.receiveRequest hcall hr he with ⟨hnone, -⟩ | hsome
    · rw [hnone] at hp
      cases hp
    obtain rfl := Option.some.inj (hsome.symm.trans hp)
    cases hparsed : r.parsed with
    | returned x =>
      simp only [hparsed] at hst
      obtain ⟨hio, rfl⟩ := ClientRequest.returned_of_parsed hparsed 0
      subst hst
      exact .inr ⟨r, hr, hio, rfl, h.concat hr ⟨0, rfl⟩ rfl rfl rfl⟩
    | request request data =>
      simp only [hparsed] at hst
      subst hst
      refine .inl ⟨rfl, rfl, ?_, h.returned⟩
      rintro c hc
      obtain rfl := Option.some.inj hc
      exact ⟨r, hr, hparsed⟩

/-- What a step does to the calls: nothing; it receives a request that starts no task, or one that
does; or it stores the reply and returns. -/
theorem Tracks.step_cases (h : Tracks reqs tail s)
    (hst : restrict step (Within reqs) s e = some s') :
    (s'.outcomes = s.outcomes ∧ e ≠ .emplace ∧ Tracks reqs tail s') ∨
    (∃ r, reqs[s.outcomes.length]? = some r ∧ r.isIo = false ∧
      s'.outcomes = s.outcomes ++ [⟨r.expected 0, none⟩] ∧ e ≠ .emplace ∧ Tracks reqs tail s') ∨
    ∃ r request data uid, reqs[s.outcomes.length]? = some r ∧ r.parsed = .request request data ∧
      s.call = some ⟨request, data, .created uid⟩ ∧ e = .emplace ∧
      s'.outcomes = s.outcomes ++ [⟨r.expected uid,
        some ((s.proxy.responses uid).getD ⟨0, request.handle⟩)⟩] ∧ Tracks reqs tail s' := by
  obtain ⟨hg, hst⟩ := restrict_eq_some.mp hst
  cases e with
  | getTaskArgs schedule =>
    rcases h.getTaskArgs_cases hg hst with ⟨hout, h'⟩ | ⟨r, hr, hio, hout, h'⟩
    · exact .inl ⟨hout, nofun, h'⟩
    · exact .inr (.inl ⟨r, hr, hio, hout, nofun, h'⟩)
  | nbdRead =>
    simp only [step] at hst
    split at hst
    · next request data hcall =>
      obtain rfl := Option.some.inj hst
      exact .inl ⟨rfl, nofun, h.congr rfl (by rw [hcall]; rfl) rfl⟩
    · cases hst
  | nbdWrite =>
    simp only [step] at hst
    split at hst
    · next request data v hcall =>
      obtain rfl := Option.some.inj hst
      exact .inl ⟨rfl, nofun, h.congr rfl (by rw [hcall]; rfl) rfl⟩
    · cases hst
  | emplace =>
    simp only [step] at hst
    split at hst
    · next request data uid hcall =>
      obtain rfl := Option.some.inj hst
      obtain ⟨r, hr, hparsed⟩ := h.inHand _ hcall
      have hargs := (ClientRequest.args_of_parsed hparsed).2 uid
      have hstream := h.stream
      simp only [begun, hcall, Option.isSome_some, if_true] at hstream
      refine .inr (.inr ⟨r, request, data, uid, hr, hparsed, hcall, rfl, ?_,
        h.concat hr ⟨uid, hargs⟩ hstream rfl rfl⟩)
      rw [← hargs]
      simp [NBDProxy.emplace]
    · cases hst
  | completionRead =>
    simp only [step] at hst
    split at hst
    · obtain rfl := Option.some.inj hst
      exact .inl ⟨rfl, nofun, h.congr rfl rfl rfl⟩
    · cases hst
  | completionWrite =>
    obtain ⟨v, -, rfl⟩ := Option.map_eq_some_iff.mp hst
    exact .inl ⟨rfl, nofun, h.congr rfl rfl rfl⟩
  | onNBDResponse uid =>
    obtain rfl := Option.some.inj hst
    exact .inl ⟨rfl, nofun, h.congr rfl rfl rfl⟩

theorem step_tracks (hst : restrict step (Within reqs) s e = some s') (h : Tracks reqs tail s) :
    Tracks reqs tail s' := by
  rcases h.step_cases hst with ⟨-, -, h'⟩ | ⟨r, -, -, -, -, h'⟩ |
    ⟨r, request, data, uid, -, -, -, -, -, h'⟩
  · exact h'
  · exact h'
  · exact h'

/-- A call stores its reply exactly if it finds no other one. -/
theorem step_stored_iff (hst : restrict step (Within reqs) s e = some s')
    (h : Tracks reqs tail s) (hs : Stored reqs s) : Stored reqs s' ↔ Vacant s e := by
  rcases h.step_cases hst with ⟨hout, he, -⟩ | ⟨r, hr, hio, hout, he, -⟩ |
    ⟨r, request, data, uid, hr, hparsed, hcall, rfl, hout, -⟩
  · refine iff_of_true ?_ (vacant_of_ne he)
    intro i r o
    rw [hout]
    exact hs i r o
  · refine iff_of_true ?_ (vacant_of_ne he)
    intro i r' o hr' ho hio'
    rw [hout] at ho
    rcases getElem?_concat ho with hold | ⟨rfl, rfl⟩
    · exact hs i r' o hr' hold hio'
    · obtain rfl := Option.some.inj (hr.symm.trans hr')
      rw [hio] at hio'
      cases hio'
  · have hhandle := (ClientRequest.args_of_parsed hparsed).1
    have hio := ClientRequest.isIo_of_parsed hparsed
    have hvacant : Vacant s .emplace ↔
        ∀ reply ∈ s.proxy.responses uid, reply = ⟨0, r.handle⟩ := by
      rw [Vacant, hcall, ← hhandle]
    rw [hvacant]
    constructor
    · intro hs' reply hreply
      have hpending := hs' s.outcomes.length r _ hr (by rw [hout, List.getElem?_concat_length]) hio
      rw [Option.mem_def.mp hreply] at hpending
      exact Option.some.inj hpending
    · intro hvac i r' o hr' ho hio'
      rw [hout] at ho
      rcases getElem?_concat ho with hold | ⟨rfl, rfl⟩
      · exact hs i r' o hr' hold hio'
      · obtain rfl := Option.some.inj (hr.symm.trans hr')
        cases hresp : s.proxy.responses uid with
        | none => rw [Option.getD_none, hhandle]
        | some reply => rw [Option.getD_some, hvac reply hresp]

theorem init_tracks (closed : Bool) : Tracks reqs tail (init (wireAll reqs ++ tail) closed) := by
  refine ⟨rfl, (fun c hc => nomatch hc), fun i r o _ ho => ?_⟩
  cases ho

theorem init_stored (closed : Bool) : Stored reqs (init (wireAll reqs ++ tail) closed) := by
  intro i r o _ ho
  cases ho

end Session

/-- Whatever `recv` returns and however it is interrupted, and whenever tickets complete in between:
the stream stays in sync and every call comes to what it should exactly if each call that stores
its reply finds no other one pending under the UID that it has drawn. -/
theorem request_stream_in_sync (reqs : List ClientRequest) (tail : List UInt8) (closed : Bool)
    (es : List Event) :
    Always (restrict Session.step (Session.Within reqs)) (Session.InSync reqs tail) es
        (.init (Session.wireAll reqs ++ tail) closed) ↔
      Obeys (restrict Session.step (Session.Within reqs)) Session.Vacant es
        (.init (Session.wireAll reqs ++ tail) closed) := by
  have hinit : Session.Tracks reqs tail (.init (Session.wireAll reqs ++ tail) closed) :=
    Session.init_tracks closed
  refine always_iff_obeys (fun s e s' => Session.step_tracks) (fun s e s' hst h hs => ?_) hinit
    (hinit.inSync_iff.mpr (Session.init_stored closed))
  rw [(Session.step_tracks hst h).inSync_iff]
  exact Session.step_stored_iff hst h (h.inSync_iff.mp hs)

/-! ### Requests with small handles -/

namespace ClientRequest

theorem smallHandle_length (last : UInt8) : [0, 0, 0, 0, 0, 0, 0, last].length = 8 := rfl

theorem read_length (length : UInt32) :
    ([] : List UInt8).length = if NbdCmd.read = .write then length.toNat else 0 := rfl

theorem flush_length :
    ([] : List UInt8).length = if NbdCmd.flush = .write then (0 : UInt32).toNat else 0 := rfl

theorem write_length {data : List UInt8} {length : UInt32} (h : data.length = length.toNat) :
    data.length = if NbdCmd.write = .write then length.toNat else 0 := h

def smallRead (last : UInt8) (offset : UInt64) (length : UInt32) : ClientRequest :=
  ⟨.read, [0, 0, 0, 0, 0, 0, 0, last], offset, length, [], smallHandle_length last,
    read_length length⟩

def smallFlush (last : UInt8) : ClientRequest :=
  ⟨.flush, [0, 0, 0, 0, 0, 0, 0, last], 0, 0, [], smallHandle_length last, flush_length⟩

def smallWrite (last : UInt8) (offset : UInt64) (length : UInt32) (data : List UInt8)
    (h : data.length = length.toNat) : ClientRequest :=
  ⟨.write, [0, 0, 0, 0, 0, 0, 0, last], offset, length, data, smallHandle_length last,
    write_length h⟩

end ClientRequest

theorem twoBytes_length : ([5, 6] : List UInt8).length = (2 : UInt32).toNat := rfl

theorem noBytes_length : ([] : List UInt8).length = (0 : UInt32).toNat := rfl

/-- A write of two bytes, a write of none, a flush and a read. -/
def mixedRequests : List ClientRequest :=
  [.smallWrite 7 1 2 [5, 6] twoBytes_length, .smallWrite 8 4 0 [] noBytes_length, .smallFlush 9,
    .smallRead 10 8 1]

/-- They arrive in pieces, with interruptions, and the first completes before the read comes. -/
def mixedCalls : List Event :=
  [.getTaskArgs [.eintr, .ready 9, .eintr, .ready 17, .ready 0, .eintr, .ready 8], .nbdRead,
    .nbdWrite, .emplace, .getTaskArgs (List.replicate 28 (.ready 0)), .nbdRead, .completionRead,
    .completionWrite, .nbdWrite, .emplace, .getTaskArgs [.ready 40], .onNBDResponse 0,
    .completionRead, .completionWrite, .getTaskArgs [.ready 26, .eintr, .ready 0], .nbdRead,
    .nbdWrite, .emplace]

theorem request_stream_in_sync_mixed :
    Always (restrict Session.step (Session.Within mixedRequests)) (Session.InSync mixedRequests [])
      mixedCalls (.init (Session.wireAll mixedRequests ++ []) false) ∧
    (run (restrict Session.step (Session.Within mixedRequests)) (fun _ _ => True) mixedCalls
        (.init (Session.wireAll mixedRequests ++ []) false)).map Session.outcomes =
      some [⟨.args (.write 0 1 2 (some [5, 6])), some ⟨0, [0, 0, 0, 0, 0, 0, 0, 7]⟩⟩,
        ⟨.args (.write 1 4 0 (some [])), some ⟨0, [0, 0, 0, 0, 0, 0, 0, 8]⟩⟩, ⟨.null, none⟩,
        ⟨.args (.read 3 8 1), some ⟨0, [0, 0, 0, 0, 0, 0, 0, 10]⟩⟩] := by
  refine ⟨(request_stream_in_sync mixedRequests [] false mixedCalls).mpr ?_, by decide +kernel⟩
  exact obeys_of_run (by decide +kernel)

/-- A read of the first byte. -/
def firstByte (handle : UInt8) : ClientRequest := .smallRead handle 0 1

/-- A call that is not disturbed. -/
def undisturbed : List Event := [.getTaskArgs [.ready 27], .nbdRead, .nbdWrite, .emplace]

/-- The first request completes while the second and the third come in; then the fourth. -/
def lateCompletion : List Event :=
  undisturbed ++ [.completionRead] ++ undisturbed ++ undisturbed ++
    [.completionWrite, .onNBDResponse 0] ++ undisturbed

/-- The fourth request has the UID of the third, whose reply is still pending: there will be none
with its handle. -/
theorem late_completion_out_of_sync :
    (run (restrict Session.step (Session.Within ([1, 2, 3, 4].map firstByte))) (fun _ _ => True)
        lateCompletion (.init (Session.wireAll ([1, 2, 3, 4].map firstByte)) false)).map
      (fun s => s.outcomes.getLast?) = some (some ⟨.args (.read 2 0 1),
        some ⟨0, [0, 0, 0, 0, 0, 0, 0, 3]⟩⟩) ∧
    ¬ Always (restrict Session.step (Session.Within ([1, 2, 3, 4].map firstByte)))
      (Session.InSync ([1, 2, 3, 4].map firstByte) []) lateCompletion
      (.init (Session.wireAll ([1, 2, 3, 4].map firstByte)) false) := by
  have hrun : (run (restrict Session.step (Session.Within ([1, 2, 3, 4].map firstByte)))
      (fun _ _ => True) lateCompletion
      (.init (Session.wireAll ([1, 2, 3, 4].map firstByte)) false)).map (fun s => s.outcomes[3]?) =
        some (some ⟨.args (.read 2 0 1), some ⟨0, [0, 0, 0, 0, 0, 0, 0, 3]⟩⟩) := by
    decide +kernel
  refine ⟨by decide +kernel, fun h => ?_⟩
  obtain ⟨s, hs, hout⟩ := Option.map_eq_some_iff.mp hrun
  have hright := (h.run hs).outcomes 3 (firstByte 4) _ rfl hout
  exact absurd (hright.2 rfl) (by decide)

/-! ### The request as the master model takes it -/

namespace ClientRequest

/-- A read or a write as the master model receives it. -/
def request (r : ClientRequest) : Request where
  handle := r.handle
  op := if r.cmd = .write then .write else .read
  offset := r.offset
  length := r.length
  data := r.data
  handle_length := r.handle_length
  data_length := by
    have hd := r.data_length
    by_cases hw : r.cmd = .write
    · simpa [hw] using hd
    · simpa [hw] using hd

end ClientRequest

end IoTDrive.Nbd
