import IoTDrive.Lib.Words

/-! The events of the watched directory. The kernel writes whole events, one behind the
other: sixteen bytes, and the name with its terminator and more NULs behind it. The loop of
`DirMonitor::MonitorRun` walks over what one `read` has brought; behind that lie the bytes of
earlier reads. A nameless event has no string of its own, so a test of its name would
read the bytes of the next one. -/

namespace IoTDrive.Framework.Monitor

open Lib

/-- `IN_CLOSE_WRITE`, `IN_DELETE`, `IN_IGNORED`. -/
def inCloseWrite : UInt32 := 0x8

def inDelete : UInt32 := 0x200

def inIgnored : UInt32 := 0x8000

/-- `sizeof(inotify_event)`, and the buffer of `MonitorRun`. -/
def eventSize : ℕ := 16

def bufferSize : ℕ := eventSize + 255 + 1

/-- An event as the kernel queues it for a watched directory. Those without a name are about the
directory or the queue, and are neither of the two the monitor waits for. -/
structure FileEvent where
  wd : UInt32
  mask : UInt32
  cookie : UInt32
  name : List UInt8
  padding : ℕ
  no_nul : 0 ∉ name
  fits : name.length + 1 + padding ≤ 256
  named : name = [] → mask &&& inCloseWrite = 0 ∧ mask &&& inDelete = 0

namespace FileEvent

def nameField (e : FileEvent) : List UInt8 :=
  if e.name = [] then [] else e.name ++ 0 :: List.replicate e.padding 0

def bytes (e : FileEvent) : List UInt8 :=
  leBytes 4 e.wd.toNat ++ (leBytes 4 e.mask.toNat ++ (leBytes 4 e.cookie.toNat ++
    (leBytes 4 e.nameField.length ++ e.nameField)))

/-- What the kernel reports when the watch has gone. -/
def ignored : FileEvent := ⟨1, inIgnored, 0, [], 0, by simp, by decide, fun _ => by decide⟩

end FileEvent

/-- The events of one `read`: as many whole ones as fit. -/
def readEvents : ℕ → List FileEvent → List FileEvent × List FileEvent
  | _, [] => ([], [])
  | room, e :: queue =>
    if e.bytes.length ≤ room then
      let r := readEvents (room - e.bytes.length) queue
      (e :: r.1, r.2)
    else ([], e :: queue)

/-! ### The loop -/

/-- The callbacks of the two dispatchers are called with a path. -/
inductive Notice where
  | opened (path : List UInt8)
  | closed (path : List UInt8)
  deriving DecidableEq, Repr

/-- ".so" -/
def soSuffix : List UInt8 := [0x2e, 0x73, 0x6f]

/-- `DirMonitor::IsSharedObject`. -/
def isSharedObject (path : List UInt8) : Bool :=
  decide (3 ≤ path.length) && path.drop (path.length - 3) == soSuffix

def load32 (memory : List UInt8) (k : ℕ) : UInt32 :=
  UInt32.ofNat (leNat ((memory.drop k).take 4))

/-- The C string at an address; the bytes behind the buffer are not known. -/
def cString (memory : List UInt8) (k : ℕ) : Option (List UInt8) :=
  if 0 ∈ memory.drop k then some ((memory.drop k).takeWhile (· ≠ 0)) else none

/-- `(event->mask & bit) && IsSharedObject(event->name)`. -/
def asks (mask bit : UInt32) (name : Option (List UInt8)) : Option Bool :=
  if mask &&& bit = 0 then some false else name.map isSharedObject

/-- One turn of the loop. -/
def notify (dirName memory : List UInt8) (ptr : ℕ) : Option (List Notice) := do
  let mask := load32 memory (ptr + 4)
  let name := cString memory (ptr + eventSize)
  if ← asks mask inCloseWrite name then return [.opened (dirName ++ (← name))]
  else if ← asks mask inDelete name then return [.closed (dirName ++ (← name))]
  else return []

/-- The loop over `size` bytes, of at most so many turns. -/
def walk (dirName memory : List UInt8) (size : ℕ) : ℕ → ℕ → Option (List Notice)
  | 0, ptr => if ptr < size then none else some []
  | turns + 1, ptr =>
    if ptr < size then do
      let now ← notify dirName memory ptr
      let later ← walk dirName memory size turns
        (ptr + eventSize + (load32 memory (ptr + 12)).toNat)
      return now ++ later
    else some []

/-- The buffer after a `read` that has brought the events, and what the loop makes of it; each
turn moves on, so `size` turns are enough. -/
def fill (memory : List UInt8) (batch : List FileEvent) : List UInt8 :=
  batch.flatMap FileEvent.bytes ++ memory.drop (batch.flatMap FileEvent.bytes).length

def monitorBatch (dirName memory : List UInt8) (size : ℕ) : Option (List Notice) :=
  walk dirName memory size size 0

/-! ### What an event means -/

/-- A plugin file was written, a plugin file was deleted, or nothing of interest. -/
def FileEvent.notices (dirName : List UInt8) (e : FileEvent) : List Notice :=
  if isSharedObject e.name then
    if e.mask &&& inCloseWrite ≠ 0 then [.opened (dirName ++ e.name)]
    else if e.mask &&& inDelete ≠ 0 then [.closed (dirName ++ e.name)]
    else []
  else []

section Walk
variable {dirName pre stale : List UInt8} {e : FileEvent}

theorem FileEvent.bytes_length (e : FileEvent) :
    e.bytes.length = eventSize + e.nameField.length := by
  simp only [bytes, List.length_append, leBytes_length, eventSize]
  omega

theorem FileEvent.nameField_length (e : FileEvent) : e.nameField.length ≤ 256 := by
  have hfits := e.fits
  rw [nameField]
  split_ifs
  · simp
  · simp only [List.length_append, List.length_cons, List.length_replicate]
    omega

/-- Every event fits into the buffer. -/
theorem FileEvent.bytes_length_le (e : FileEvent) : e.bytes.length ≤ bufferSize := by
  have hname := e.nameField_length
  have hlen := e.bytes_length
  have hsize : bufferSize = eventSize + 256 := rfl
  omega

/-- A word in the middle of the memory. -/
theorem load32_append {x : UInt32} {rest : List UInt8} {k : ℕ} (hk : pre.length = k) :
    load32 (pre ++ (leBytes 4 x.toNat ++ rest)) k = x := by
  rw [load32, List.drop_left' hk, List.take_left' (leBytes_length 4 _),
    leNat_leBytes_of_lt (by simpa using x.toNat_lt), UInt32.ofNat_toNat]

theorem load32_mask : load32 (pre ++ (e.bytes ++ stale)) (pre.length + 4) = e.mask := by
  rw [FileEvent.bytes, List.append_assoc, List.append_assoc, ← List.append_assoc pre]
  exact load32_append (by simp)

theorem load32_len :
    (load32 (pre ++ (e.bytes ++ stale)) (pre.length + 12)).toNat = e.nameField.length := by
  have hlt : e.nameField.length < 2 ^ 32 := by
    have := e.nameField_length
    omega
  have hword : (UInt32.ofNat e.nameField.length).toNat = e.nameField.length := by
    rw [UInt32.toNat_ofNat', Nat.mod_eq_of_lt hlt]
  have hload : load32 ((pre ++ (leBytes 4 e.wd.toNat ++
      (leBytes 4 e.mask.toNat ++ leBytes 4 e.cookie.toNat))) ++
        (leBytes 4 (UInt32.ofNat e.nameField.length).toNat ++ (e.nameField ++ stale)))
      (pre.length + 12) = UInt32.ofNat e.nameField.length := load32_append (by simp)
  rw [hword] at hload
  simp only [FileEvent.bytes, List.append_assoc] at hload ⊢
  rw [hload, hword]

/-- The string of a named event is its name. -/
theorem cString_name (hname : e.name ≠ []) :
    cString (pre ++ (e.bytes ++ stale)) (pre.length + eventSize) = some e.name := by
  have hdrop : (pre ++ (e.bytes ++ stale)).drop (pre.length + eventSize) =
      e.name ++ 0 :: (List.replicate e.padding 0 ++ stale) := by
    rw [← List.drop_drop, List.drop_left, FileEvent.bytes]
    simp only [← List.append_assoc]
    rw [List.append_assoc _ e.nameField, List.drop_left' (by simp [eventSize]),
      FileEvent.nameField, if_neg hname]
    simp
  have hwhile : (e.name ++ 0 :: (List.replicate e.padding 0 ++ stale)).takeWhile (· ≠ 0) =
      e.name := by
    rw [List.takeWhile_append_of_pos]
    · simp
    · intro x hx
      simpa using fun h : x = 0 => e.no_nul (h ▸ hx)
  rw [cString, hdrop, if_pos (by simp), hwhile]

theorem notify_event :
    notify dirName (pre ++ (e.bytes ++ stale)) pre.length = some (e.notices dirName) := by
  rw [notify, load32_mask]
  by_cases hname : e.name = []
  · obtain ⟨hwrite, hdelete⟩ := e.named hname
    simp [asks, hwrite, hdelete, FileEvent.notices]
  · rw [cString_name hname]
    by_cases hso : isSharedObject e.name <;> by_cases hwrite : e.mask &&& inCloseWrite = 0 <;>
      by_cases hdelete : e.mask &&& inDelete = 0 <;>
        simp [asks, hso, hwrite, hdelete, FileEvent.notices]

theorem walk_events (batch : List FileEvent) {turns : ℕ} (hturns : batch.length ≤ turns) :
    walk dirName (pre ++ (batch.flatMap FileEvent.bytes ++ stale))
        (pre.length + (batch.flatMap FileEvent.bytes).length) turns pre.length =
      some (batch.flatMap (FileEvent.notices dirName)) := by
  induction batch generalizing pre turns with
  | nil => cases turns <;> simp [walk]
  | cons e batch ih =>
    obtain ⟨turns, rfl⟩ : ∃ n, turns = n + 1 := ⟨turns - 1, by simp at hturns; omega⟩
    have hrest : walk dirName ((pre ++ e.bytes) ++ (batch.flatMap FileEvent.bytes ++ stale))
        ((pre ++ e.bytes).length + (batch.flatMap FileEvent.bytes).length) turns
          (pre ++ e.bytes).length = some (batch.flatMap (FileEvent.notices dirName)) :=
      ih (by simpa using hturns)
    have hlen := e.bytes_length
    have hmem : pre ++ ((e :: batch).flatMap FileEvent.bytes ++ stale) =
        pre ++ (e.bytes ++ (batch.flatMap FileEvent.bytes ++ stale)) := by simp
    have hsize : pre.length + ((e :: batch).flatMap FileEvent.bytes).length =
        (pre ++ e.bytes).length + (batch.flatMap FileEvent.bytes).length := by
      simp only [List.flatMap_cons, List.length_append]
      omega
    have hptr : pre.length + eventSize + e.nameField.length = (pre ++ e.bytes).length := by
      rw [List.length_append, hlen]
      omega
    have hlt : pre.length < (pre ++ e.bytes).length + (batch.flatMap FileEvent.bytes).length := by
      rw [List.length_append, hlen, eventSize]
      omega
    rw [walk, hmem, hsize, if_pos hlt, notify_event, load32_len, hptr, ← List.append_assoc pre,
      hrest]
    simp

/-- Whatever lies behind the events, the loop makes of each what it means, in their order. -/
theorem monitorBatch_fill (memory : List UInt8) (batch : List FileEvent) :
    monitorBatch dirName (fill memory batch) (batch.flatMap FileEvent.bytes).length =
      some (batch.flatMap (FileEvent.notices dirName)) := by
  have hturns : batch.length ≤ (batch.flatMap FileEvent.bytes).length := by
    induction batch with
    | nil => simp
    | cons e batch ih =>
      have := e.bytes_length
      simp only [List.flatMap_cons, List.length_cons, List.length_append, eventSize] at this ⊢
      omega
  have hwalk : walk dirName ([] ++ (batch.flatMap FileEvent.bytes ++
      memory.drop (batch.flatMap FileEvent.bytes).length))
        ([].length + (batch.flatMap FileEvent.bytes).length)
          (batch.flatMap FileEvent.bytes).length [].length =
      some (batch.flatMap (FileEvent.notices dirName)) := walk_events batch hturns
  simpa [monitorBatch, fill] using hwalk

end Walk

/-! ### What one read brings -/

theorem readEvents_append (room : ℕ) (queue : List FileEvent) :
    (readEvents room queue).1 ++ (readEvents room queue).2 = queue := by
  induction queue generalizing room with
  | nil => rfl
  | cons e queue ih =>
    rw [readEvents]
    split_ifs
    · simp [ih]
    · rfl

/-- The buffer has room for the next event, so a `read` does not fail for its size. -/
theorem readEvents_ne_nil {queue : List FileEvent} (h : queue ≠ []) :
    (readEvents bufferSize queue).1 ≠ [] := by
  cases queue with
  | nil => exact absurd rfl h
  | cons e queue =>
    rw [readEvents, if_pos e.bytes_length_le]
    simp

end IoTDrive.Framework.Monitor
