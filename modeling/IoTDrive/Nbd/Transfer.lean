import IoTDrive.Lib.Transfer
import Mathlib.Data.Int.Notation

/-! The two loops of `TCPClient`. `Receive` calls `recv` again after an interruption, `Send`
takes every return of `send` that moves nothing for a failure. The results of the
system calls are a list; one that ends before the loop does leaves it in a call. The
buffer of `Send` and the bytes that come in are given by their positions. -/

namespace IoTDrive.Nbd

open Lib

namespace TCPClient

/-- One return of `send` or `recv`: at most `k + 1` bytes, -1 with `EINTR`, 0 at the end of the
stream, or -1 with another `errno`. -/
inductive Result where
  | moved (k : ℕ)
  | eintr
  | ended
  | error
  deriving DecidableEq, Repr

/-- What the call for `size` bytes returns. -/
def Result.numbytes (size : ℕ) : Result → ℤ
  | moved k => (min (k + 1) size : ℕ)
  | ended => 0
  | eintr | error => -1

/-- How a call ends: still in a system call, normally, or with an exception. -/
inductive Ending (A : Type*) where
  | waiting
  | returned (value : A)
  | threw (what : String)
  deriving DecidableEq, Repr

variable {α : Type*}

/-- `Send` of the `size` bytes of `buffer`, behind those in the stream. -/
def send : List Result → (ℕ → α) → ℕ → List α → Ending Unit × List α
  | [], _, size, stream => (if 0 < size then .waiting else .returned (), stream)
  | r :: rs, buffer, size, stream =>
    if 0 < size then
      let numbytes := r.numbytes size
      if numbytes ≤ 0 then (.threw "failed to send\n", stream)
      else
        send rs (fun i => buffer (numbytes.toNat + i)) (size - numbytes.toNat)
          (stream ++ (List.range numbytes.toNat).map buffer)
    else (.returned (), stream)

/-- `Receive` of the first `size` bytes of `stream`, behind those in the buffer. -/
def receive : List Result → (ℕ → α) → ℕ → List α → Ending ℕ × List α
  | [], _, size, buffer => (if 0 < size then .waiting else .returned size, buffer)
  | r :: rs, stream, size, buffer =>
    if 0 < size then
      let numbytes := r.numbytes size
      if numbytes = 0 then (.threw "disconnected while receiving\n", buffer)
      else if numbytes = -1 then
        if r = .eintr then receive rs stream size buffer
        else (.threw "failed to receive\n", buffer)
      else
        receive rs (fun i => stream (numbytes.toNat + i)) (size - numbytes.toNat)
          (buffer ++ (List.range numbytes.toNat).map stream)
    else (.returned size, buffer)

/-! ### What the loops are for -/

namespace Result

def count : Result → ℕ
  | moved k => k + 1
  | _ => 0

/-- The end of the stream, or an error other than an interruption. -/
def stops : Result → Bool
  | ended | error => true
  | _ => false

end Result

/-- The bytes that the system calls can move before an end of stream or an error. -/
def movable (rs : List Result) : ℕ := room Result.stops Result.count rs

/-- The loop returns exactly if the results move as many bytes as `next` has before an end of
stream or an error, and has then moved these; it throws exactly if one of those comes
before; and interruptions change neither how it ends nor what it moves. -/
structure Exact {A : Type*} (loop : List Result → Ending A × List α) (next : List α)
    (rs : List Result) : Prop where
  returns_iff : (∃ value, (loop rs).1 = .returned value) ↔ next.length ≤ movable rs
  throws_iff : (∃ what, (loop rs).1 = .threw what) ↔
    movable rs < next.length ∧ ∃ r ∈ rs, r.stops = true
  moved_eq : (∃ value, (loop rs).1 = .returned value) → (loop rs).2 = next
  uninterrupted : loop (rs.filter (· ≠ .eintr)) = loop rs

/-- An interruption that comes before the transfer is through is followed by an end of stream or
an error before any other byte is moved. -/
def Unharmed (rs : List Result) (size : ℕ) : Prop :=
  ∀ pre post, rs = pre ++ .eintr :: post → (∀ r ∈ pre, r.stops = false) → movable pre < size →
    movable post = 0 ∧ ∃ r ∈ post, r.stops = true

/-! ### The loops as transfers -/

/-- What `Send` takes for a failure. -/
def Result.fails : Result → Bool
  | moved _ => false
  | _ => true

def sendEnding : Halt Result → Ending Unit
  | .waiting => .waiting
  | .done => .returned ()
  | .stopped _ => .threw "failed to send\n"

def receiveEnding : Halt Result → Ending ℕ
  | .waiting => .waiting
  | .done => .returned 0
  | .stopped .ended => .threw "disconnected while receiving\n"
  | .stopped _ => .threw "failed to receive\n"

variable {rs : List Result} {source : ℕ → α} {size : ℕ} {sink : List α}

theorem send_eq_transfer : send rs source size sink =
    (sendEnding (transfer Result.fails Result.count rs source size sink).1,
      (transfer Result.fails Result.count rs source size sink).2) := by
  induction rs generalizing source size sink with
  | nil =>
    rcases Nat.eq_zero_or_pos size with rfl | hsize
    · rfl
    · simp [send, transfer, hsize, Nat.ne_of_gt hsize, sendEnding]
  | cons r rs ih =>
    rcases Nat.eq_zero_or_pos size with rfl | hsize
    · simp [send, transfer, sendEnding]
    rw [send, transfer, if_pos hsize, if_neg (Nat.ne_of_gt hsize)]
    cases r with
    | moved k =>
      have hpos : ¬ (Result.moved k).numbytes size ≤ 0 := by
        change ¬ ((min (k + 1) size : ℕ) : ℤ) ≤ 0
        omega
      have hcount : ((Result.moved k).numbytes size).toNat = min (Result.moved k).count size := rfl
      dsimp only
      rw [if_neg hpos, hcount, ih, if_neg (by simp [Result.fails])]
    | _ => rfl

theorem receive_eq_transfer : receive rs source size sink =
    (receiveEnding (transfer Result.stops Result.count rs source size sink).1,
      (transfer Result.stops Result.count rs source size sink).2) := by
  induction rs generalizing source size sink with
  | nil =>
    rcases Nat.eq_zero_or_pos size with rfl | hsize
    · rfl
    · simp [receive, transfer, hsize, Nat.ne_of_gt hsize, receiveEnding]
  | cons r rs ih =>
    rcases Nat.eq_zero_or_pos size with rfl | hsize
    · simp [receive, transfer, receiveEnding]
    rw [receive, transfer, if_pos hsize, if_neg (Nat.ne_of_gt hsize)]
    cases r with
    | moved k =>
      have hnumbytes : (Result.moved k).numbytes size = (min (k + 1) size : ℕ) := rfl
      have hcount : ((Result.moved k).numbytes size).toNat = min (Result.moved k).count size := rfl
      dsimp only
      rw [if_neg (by omega), if_neg (by omega), hcount, ih, if_neg (by simp [Result.stops])]
    | eintr =>
      -- the call is made again, for the same bytes
      simpa [Result.numbytes, Result.stops, Result.count] using ih
    | ended => rfl
    | error => rfl

theorem send_eq : send rs source size sink =
    (sendEnding (halt Result.fails Result.count rs size),
      sink ++ (List.range (min size (room Result.fails Result.count rs))).map source) := by
  rw [send_eq_transfer, transfer_eq]

theorem receive_eq : receive rs source size sink =
    (receiveEnding (halt Result.stops Result.count rs size),
      sink ++ (List.range (min size (movable rs))).map source) := by
  rw [receive_eq_transfer, transfer_eq, movable]

theorem sendEnding_returned {h : Halt Result} :
    (∃ value, sendEnding h = .returned value) ↔ h = .done := by
  cases h <;> simp [sendEnding]

theorem sendEnding_threw {h : Halt Result} :
    (∃ what, sendEnding h = .threw what) ↔ ∃ r, h = .stopped r := by
  cases h <;> simp [sendEnding]

theorem receiveEnding_returned {h : Halt Result} :
    (∃ value, receiveEnding h = .returned value) ↔ h = .done := by
  rcases h with _ | _ | (_ | _ | _ | _) <;> simp [receiveEnding]

theorem receiveEnding_threw {h : Halt Result} :
    (∃ what, receiveEnding h = .threw what) ↔ ∃ r, h = .stopped r := by
  rcases h with _ | _ | (_ | _ | _ | _) <;> simp [receiveEnding]

/-- A transfer that only an end of stream or an error stops is exact. -/
theorem exact_of_eq {A : Type*} {loop : List Result → Ending A × List α}
    {ending : Halt Result → Ending A}
    (hreturned : ∀ h, (∃ value, ending h = .returned value) ↔ h = .done)
    (hthrew : ∀ h, (∃ what, ending h = .threw what) ↔ ∃ r, h = .stopped r)
    (hloop : loop rs = (ending (halt Result.stops Result.count rs size),
      (List.range (min size (movable rs))).map source))
    (hfilter : loop (rs.filter (· ≠ .eintr)) = loop rs) :
    Exact loop ((List.range size).map source) rs := by
  have hlen : ((List.range size).map source).length = size := by simp
  constructor
  case returns_iff => rw [hloop, hreturned, halt_eq_done_iff, hlen, movable]
  case throws_iff => rw [hloop, hthrew, exists_halt_eq_stopped, hlen, movable]
  case moved_eq =>
    rw [hloop, hreturned, halt_eq_done_iff]
    intro hle
    rw [movable, Nat.min_eq_left hle]
  case uninterrupted => exact hfilter

/-- An interruption neither moves bytes nor ends a stream. -/
theorem eintr_of_filtered (r : Result) (h : decide (r ≠ .eintr) = false) :
    r.stops = false ∧ r.count = 0 := by
  obtain rfl : r = .eintr := by simpa using h
  exact ⟨rfl, rfl⟩

theorem exact_receive (rs : List Result) (stream : ℕ → α) (size : ℕ) :
    Exact (fun rs => receive rs stream size []) ((List.range size).map stream) rs := by
  refine exact_of_eq (fun _ => receiveEnding_returned) (fun _ => receiveEnding_threw) ?_ ?_
  · rw [receive_eq, List.nil_append]
  · rw [receive_eq_transfer, receive_eq_transfer, transfer_filter eintr_of_filtered]

/-! ### Where `Send` is exact -/

/-- Without interruptions the loops stop at the same results. -/
theorem send_filter : send (rs.filter (· ≠ .eintr)) source size sink =
    (sendEnding (halt Result.stops Result.count rs size),
      sink ++ (List.range (min size (movable rs))).map source) := by
  have hsame : ∀ r ∈ rs.filter (· ≠ .eintr), r.fails = r.stops := by
    intro r hmem
    have hne : r ≠ .eintr := by simpa using (List.mem_filter.mp hmem).2
    cases r with
    | eintr => exact absurd rfl hne
    | _ => rfl
  rw [send_eq, halt_congr hsame, room_congr hsame, halt_filter eintr_of_filtered,
    room_filter eintr_of_filtered, movable]

theorem exact_send_iff (buffer : ℕ → α) (size : ℕ) :
    Exact (fun rs => send rs buffer size []) ((List.range size).map buffer) rs ↔
      send (rs.filter (· ≠ .eintr)) buffer size [] = send rs buffer size [] := by
  constructor
  · exact fun h => h.uninterrupted
  · intro h
    refine exact_of_eq (fun _ => sendEnding_returned) (fun _ => sendEnding_threw) ?_ h
    rw [← h, send_filter, List.nil_append]

theorem fails_of_stops (r : Result) (h : r.stops = true) : r.fails = true := by
  cases r with
  | moved k => cases h
  | _ => rfl

theorem unharmed_of_send (buffer : ℕ → α)
    (h : send (rs.filter (· ≠ .eintr)) buffer size [] = send rs buffer size []) :
    Unharmed rs size := by
  rintro pre post rfl hpre hlt
  rw [send_filter, send_eq] at h
  obtain ⟨hending, hmoved⟩ := Prod.mk.inj h
  have hroom : room Result.fails Result.count (pre ++ .eintr :: post) ≤ movable pre := by
    rw [room_append_stop rfl]
    exact room_mono fails_of_stops pre
  have hmovable : movable (pre ++ .eintr :: post) = movable pre + movable post := by
    rw [movable, room_append hpre, room]
    simp [Result.stops, Result.count, movable]
  have hlen := congrArg List.length hmoved
  simp only [List.nil_append, List.length_map, List.length_range] at hlen
  refine ⟨by omega, ?_⟩
  -- `Send` has thrown at the interruption
  have hthrew : ∃ what, sendEnding (halt Result.stops Result.count (pre ++ .eintr :: post) size) =
      .threw what := by
    rw [hending, sendEnding_threw, exists_halt_eq_stopped]
    exact ⟨by omega, .eintr, by simp, rfl⟩
  rw [sendEnding_threw, exists_halt_eq_stopped] at hthrew
  obtain ⟨-, r, hmem, hr⟩ := hthrew
  refine ⟨r, ?_, hr⟩
  rcases List.mem_append.mp hmem with hmem | hmem
  · rw [hpre r hmem] at hr
    cases hr
  · rcases List.mem_cons.mp hmem with rfl | hmem
    · cases hr
    · exact hmem

/-- Both loops are stopped, at the same bytes. -/
theorem send_filter_of_stopped (buffer : ℕ → α)
    (hroom : room Result.fails Result.count rs = movable rs)
    (hlt : movable rs < size) (hstop : ∃ r ∈ rs, r.stops = true) :
    send (rs.filter (· ≠ .eintr)) buffer size [] = send rs buffer size [] := by
  obtain ⟨r, hr⟩ := exists_halt_eq_stopped.mpr ⟨hlt, hstop⟩
  obtain ⟨r', hr'⟩ : ∃ r', halt Result.fails Result.count rs size = .stopped r' := by
    obtain ⟨r', hmem, hr'⟩ := hstop
    exact exists_halt_eq_stopped.mpr ⟨hroom ▸ hlt, r', hmem, fails_of_stops r' hr'⟩
  rw [send_filter, send_eq, hr, hr', hroom]
  rfl

theorem send_of_unharmed (buffer : ℕ → α) (h : Unharmed rs size) :
    send (rs.filter (· ≠ .eintr)) buffer size [] = send rs buffer size [] := by
  by_cases hsize : size ≤ room Result.fails Result.count rs
  · -- the transfer is through before any failure
    have hle : size ≤ movable rs := Nat.le_trans hsize (room_mono fails_of_stops rs)
    rw [send_filter, send_eq, halt_eq_done_iff.mpr hsize, halt_eq_done_iff.mpr hle,
      Nat.min_eq_left hsize, Nat.min_eq_left hle]
  replace hsize := Nat.lt_of_not_le hsize
  cases hfind : rs.find? Result.fails with
  | none =>
    have hsame : ∀ r ∈ rs, r.fails = r.stops := by
      intro r hmem
      have hr := List.find?_eq_none.mp hfind r hmem
      cases r with
      | moved k => rfl
      | _ => exact absurd rfl hr
    rw [send_filter, send_eq, halt_congr hsame, room_congr hsame, movable]
  | some r =>
    obtain ⟨hr, pre, post, rfl, hpre⟩ := List.find?_eq_some_iff_append.mp hfind
    have hsame : ∀ r ∈ pre, r.fails = r.stops := by
      intro r hmem
      have hr := hpre r hmem
      cases r with
      | moved k => rfl
      | _ => cases hr
    have hstops : ∀ r ∈ pre, r.stops = false := by
      intro r hmem
      rw [← hsame r hmem]
      simpa using hpre r hmem
    have hroom : room Result.fails Result.count (pre ++ r :: post) = movable pre := by
      rw [room_append_stop hr, room_congr hsame, movable]
    rw [hroom] at hsize
    by_cases hstop : r.stops = true
    · have hmovable : movable (pre ++ r :: post) = movable pre := room_append_stop hstop
      exact send_filter_of_stopped buffer (hroom.trans hmovable.symm) (hmovable ▸ hsize)
        ⟨r, by simp, hstop⟩
    · obtain rfl : r = .eintr := by
        cases r with
        | moved k => cases hr
        | eintr => rfl
        | _ => exact absurd rfl hstop
      obtain ⟨hnone, r, hmem, hrstop⟩ := h pre post rfl hstops hsize
      have hmovable : movable (pre ++ .eintr :: post) = movable pre := by
        rw [movable, room_append hstops, room]
        simpa [Result.stops, Result.count, movable] using hnone
      exact send_filter_of_stopped buffer (hroom.trans hmovable.symm) (hmovable ▸ hsize)
        ⟨r, by simp [hmem], hrstop⟩

/-- Whatever the system calls return: `Receive` is exact, and `Send` is if and only if each
interruption that comes before it is through is followed by an end of stream or an error
before any other byte. -/
theorem transfers_exact_iff (sends recvs : List Result) (buffer stream : ℕ → α)
    (size wanted : ℕ) :
    Exact (fun rs => send rs buffer size []) ((List.range size).map buffer) sends ∧
        Exact (fun rs => receive rs stream wanted []) ((List.range wanted).map stream) recvs ↔
      Unharmed sends size := by
  rw [and_iff_left (exact_receive recvs stream wanted), exact_send_iff]
  exact ⟨unharmed_of_send buffer, send_of_unharmed buffer⟩

/-- A send of two bytes is interrupted after the first. -/
def interrupted : List Result := [.moved 0, .eintr, .moved 0]

theorem send_interrupted :
    send interrupted (fun i => i + 7) 2 [] = (.threw "failed to send\n", [7]) ∧
      receive interrupted (fun i => i + 7) 2 [] = (.returned 0, [7, 8]) ∧
      ¬ Exact (fun rs => send rs (fun i => i + 7) 2 []) [7, 8] interrupted := by
  have hsend : send interrupted (fun i => i + 7) 2 [] = (.threw "failed to send\n", [7]) := by
    decide
  refine ⟨hsend, by decide, fun h => ?_⟩
  obtain ⟨value, hvalue⟩ := h.returns_iff.mpr (by decide)
  rw [hsend] at hvalue
  cases hvalue

end TCPClient

end IoTDrive.Nbd
