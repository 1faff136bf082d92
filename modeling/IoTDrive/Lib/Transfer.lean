import Mathlib.Data.List.Find
import Mathlib.Data.Nat.Notation
import Mathlib.Tactic.SplitIfs
import Mathlib.Tactic.TypeStar

/-! Moving items in pieces. A transfer calls an operation again and again until it has moved
what it was asked to; each call moves some of the items that are left, moves none, or
stops the transfer. The results of the calls are given as a list, and a transfer that is
not through at its end waits in a call. -/

namespace IoTDrive.Lib

variable {α R : Type*}

/-- How a transfer stands after the results so far. -/
inductive Halt (R : Type*) where
  | waiting
  | done
  | stopped (r : R)

section Transfer
variable (stop : R → Bool) (count : R → ℕ)

/-- Move the first `size` items of `source` behind `sink`; a call moves at most what is left. -/
def transfer : List R → (ℕ → α) → ℕ → List α → Halt R × List α
  | [], _, size, sink => (if size = 0 then .done else .waiting, sink)
  | r :: rs, source, size, sink =>
    if size = 0 then (.done, sink)
    else if stop r then (.stopped r, sink)
    else
      transfer rs (fun i => source (min (count r) size + i)) (size - min (count r) size)
        (sink ++ (List.range (min (count r) size)).map source)

/-- The items that can be moved before the first result that stops. -/
def room : List R → ℕ
  | [] => 0
  | r :: rs => if stop r then 0 else count r + room rs

def halt (rs : List R) (size : ℕ) : Halt R :=
  if size ≤ room stop count rs then .done else (rs.find? stop).elim .waiting .stopped

end Transfer

variable {stop : R → Bool} {count : R → ℕ} {rs pre post : List R} {r : R}

/-- A transfer moves what there is room for, in order. -/
theorem transfer_eq (source : ℕ → α) (size : ℕ) (sink : List α) :
    transfer stop count rs source size sink =
      (halt stop count rs size,
        sink ++ (List.range (min size (room stop count rs))).map source) := by
  induction rs generalizing source size sink with
  | nil => simp [transfer, halt, room]
  | cons r rs ih =>
    rw [transfer]
    split_ifs with hsize hstop
    · simp [halt, hsize]
    · simp [halt, room, hstop, hsize]
    · have hmin : min (count r) size + min (size - min (count r) size) (room stop count rs) =
          min size (count r + room stop count rs) := by omega
      have hhalt : halt stop count rs (size - min (count r) size) =
          halt stop count (r :: rs) size := by
        have hle : size - min (count r) size ≤ room stop count rs ↔
            size ≤ count r + room stop count rs := by omega
        simp [halt, room, hstop, hle]
      rw [ih, hhalt, room, if_neg hstop, ← hmin, List.range_add, List.map_append, List.map_map,
        List.append_assoc]
      rfl

theorem halt_eq_done_iff {size : ℕ} :
    halt stop count rs size = .done ↔ size ≤ room stop count rs := by
  unfold halt
  split_ifs with hle
  · simp [hle]
  · cases rs.find? stop <;> simp [hle]

theorem halt_eq_stopped_iff {size : ℕ} :
    halt stop count rs size = .stopped r ↔
      room stop count rs < size ∧ rs.find? stop = some r := by
  unfold halt
  split_ifs with hle
  · simp [Nat.not_lt.mpr hle]
  · cases rs.find? stop <;> simp [Nat.lt_of_not_le hle]

theorem exists_halt_eq_stopped {size : ℕ} : (∃ r, halt stop count rs size = .stopped r) ↔
    room stop count rs < size ∧ ∃ r ∈ rs, stop r = true := by
  simp only [halt_eq_stopped_iff, exists_and_left]
  rw [← Option.isSome_iff_exists, List.find?_isSome]

theorem room_append (h : ∀ r ∈ pre, stop r = false) :
    room stop count (pre ++ post) = room stop count pre + room stop count post := by
  induction pre with
  | nil => simp [room]
  | cons r pre ih =>
    have hr := h r List.mem_cons_self
    have htail : ∀ r ∈ pre, stop r = false := fun r hmem => h r (.tail _ hmem)
    simp [room, hr, ih htail, Nat.add_assoc]

/-- Nothing is moved behind a result that stops. -/
theorem room_append_stop (hr : stop r = true) :
    room stop count (pre ++ r :: post) = room stop count pre := by
  induction pre with
  | nil => simp [room, hr]
  | cons r' pre ih => simp only [List.cons_append, room, ih]

/-- A loop that stops at more results moves less. -/
theorem room_mono {stop' : R → Bool} (h : ∀ r, stop' r = true → stop r = true) (rs : List R) :
    room stop count rs ≤ room stop' count rs := by
  induction rs with
  | nil => exact Nat.le_refl 0
  | cons r rs ih =>
    simp only [room]
    split_ifs with hr hr'
    · exact Nat.zero_le _
    · exact Nat.zero_le _
    · next hr' => exact absurd (h r hr') hr
    · omega

theorem room_congr {stop' : R → Bool} (h : ∀ r ∈ rs, stop r = stop' r) :
    room stop count rs = room stop' count rs := by
  induction rs with
  | nil => rfl
  | cons r rs ih =>
    rw [room, room, h r List.mem_cons_self, ih fun r' hmem => h r' (.tail _ hmem)]

theorem halt_congr {stop' : R → Bool} (h : ∀ r ∈ rs, stop r = stop' r) (size : ℕ) :
    halt stop count rs size = halt stop' count rs size := by
  rw [halt, halt, room_congr h, List.find?_congr h]

section Filter
variable {keep : R → Bool} (h : ∀ r, keep r = false → stop r = false ∧ count r = 0)
include h

theorem room_filter : room stop count (rs.filter keep) = room stop count rs := by
  induction rs with
  | nil => rfl
  | cons r rs ih =>
    cases hr : keep r with
    | true => rw [List.filter_cons_of_pos hr, room, room, ih]
    | false =>
      obtain ⟨hstop, hcount⟩ := h r hr
      rw [List.filter_cons_of_neg (by simp [hr]), room, ih, hstop, hcount]
      simp

theorem halt_filter (size : ℕ) : halt stop count (rs.filter keep) size = halt stop count rs size := by
  have hfind : (rs.filter keep).find? stop = rs.find? stop := by
    rw [List.find?_filter]
    congr 1
    funext r
    cases hr : keep r with
    | true => simp
    | false => simp [(h r hr).1]
  rw [halt, room_filter h, hfind, halt]

/-- Results that move nothing and stop nothing can be left out. -/
theorem transfer_filter (source : ℕ → α) (size : ℕ) (sink : List α) :
    transfer stop count (rs.filter keep) source size sink =
      transfer stop count rs source size sink := by
  rw [transfer_eq, transfer_eq, halt_filter h, room_filter h]

end Filter

end IoTDrive.Lib
