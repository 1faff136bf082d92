import IoTDrive.Lib.Memory

/-! The backing file of a minion behind one `std::fstream`. The stream keeps two error
bits and one position from call to call: a short read sets both bits; a read, a
write or a seek does nothing while the fail bit is set; `seekg` clears the
end-of-file bit only, and nothing clears the fail bit. A write past the end
extends the file. Positions are natural numbers: files so long that an offset no
longer fits a signed `streamoff` are outside the model, and so are device errors. -/

namespace IoTDrive.Minion

open Lib

structure FileManager where
  content : List UInt8
  pos : ℕ
  failbit : Bool
  eofbit : Bool
  deriving DecidableEq, Repr

namespace FileManager

/-! ### The stream -/

def good (f : FileManager) : Bool := !f.failbit && !f.eofbit

def seekg (f : FileManager) (off : ℕ) : FileManager :=
  if f.failbit then { f with eofbit := false } else { f with eofbit := false, pos := off }

def seekp (f : FileManager) (off : ℕ) : FileManager :=
  if f.failbit then f else { f with pos := off }

/-- `read`: the stream after it and the bytes it stored in the caller's buffer. -/
def read (f : FileManager) (n : ℕ) : FileManager × List UInt8 :=
  if f.good then
    let got := (f.content.drop f.pos).take n
    if got.length < n then
      ({ f with pos := f.pos + got.length, failbit := true, eofbit := true }, got)
    else ({ f with pos := f.pos + n }, got)
  else ({ f with failbit := true }, [])

def write (f : FileManager) (bs : List UInt8) : FileManager :=
  if f.good then
    -- an empty write leaves the file as it is, wherever the position stands
    if bs = [] then f
    else { f with content := writeAt 0 f.content f.pos bs, pos := f.pos + bs.length }
  else f

/-! ### The manager -/

/-- `std::ofstream create(file)`: the output mode alone truncates an existing file. -/
def create (_disk : List UInt8) : List UInt8 := []

/-- `Init` on a file that may already exist with contents `disk`. -/
def init (disk : List UInt8) (size : ℕ) (_h : 0 < size) : FileManager :=
  let opened : FileManager := ⟨create disk, 0, false, false⟩
  ((opened.seekp (size - 1)).write [0]).seekg 0

/-- `ReadFromFile` into a buffer of `length` bytes that held `heap`: the stream, whether
it is still good, and the buffer. -/
def readFromFile (f : FileManager) (offset length : ℕ) (heap : ℕ → UInt8) :
    FileManager × Bool × List UInt8 :=
  let (f', got) := (f.seekg offset).read length
  (f', f'.good, memRead got heap length)

/-- `WriteToFile` of the first `length` bytes of a buffer. -/
def writeToFile (f : FileManager) (offset length : ℕ) (buffer : List UInt8)
    (beyond : ℕ → UInt8) : FileManager × Bool :=
  let f' := (f.seekp offset).write (memRead buffer beyond length)
  (f', f'.good)

/-- A stream with no error bit on a file of the given size. -/
structure Serves (f : FileManager) (size : ℕ) : Prop where
  length_eq : f.content.length = size
  failbit_eq : f.failbit = false
  eofbit_eq : f.eofbit = false

theorem Serves.good {f : FileManager} {size : ℕ} (h : f.Serves size) : f.good = true := by
  simp [FileManager.good, h.failbit_eq, h.eofbit_eq]

/-- A fresh file is all zero, whatever was on the disk. -/
theorem init_eq (disk : List UInt8) {size : ℕ} (h : 0 < size) :
    init disk size h = ⟨List.replicate size 0, 0, false, false⟩ := by
  have hc : writeAt (0 : UInt8) [] (size - 1) [0] = List.replicate size 0 := by
    obtain ⟨n, rfl⟩ := Nat.exists_eq_succ_of_ne_zero (Nat.pos_iff_ne_zero.mp h)
    simp [writeAt, List.replicate_succ']
  simp [init, create, seekp, write, FileManager.good, seekg, hc]

theorem init_serves (disk : List UInt8) {size : ℕ} (h : 0 < size) :
    (init disk size h).Serves size := by
  rw [init_eq]
  exact ⟨by simp, rfl, rfl⟩

/-- An access inside the file returns the bytes there and leaves them alone. -/
theorem readFromFile_eq {f : FileManager} {size offset length : ℕ} (h : f.Serves size)
    (hin : offset + length ≤ size) (heap : ℕ → UInt8) :
    f.readFromFile offset length heap =
      ({ f with pos := offset + length }, true, (f.content.drop offset).take length) := by
  have hseek : f.seekg offset = { f with pos := offset } := by
    simp [seekg, h.failbit_eq, h.eofbit_eq]
  have hlen : ((f.content.drop offset).take length).length = length := by
    have := h.length_eq
    simp
    omega
  have hgood : ({ f with pos := offset } : FileManager).good = true := h.good
  have hgood' : ({ f with pos := offset + length } : FileManager).good = true := h.good
  have hmem : memRead ((f.content.drop offset).take length) heap length =
      (f.content.drop offset).take length := by
    rw [memRead_of_le _ (by omega), List.take_take, Nat.min_self]
  simp [readFromFile, hseek, read, hgood, hgood', hlen, hmem]

/-- An access inside the file stores the bytes there. -/
theorem writeToFile_eq {f : FileManager} {size offset length : ℕ} {buffer : List UInt8}
    (h : f.Serves size) (hin : offset + length ≤ size) (hb : length ≤ buffer.length)
    (beyond : ℕ → UInt8) :
    ∃ p, f.writeToFile offset length buffer beyond =
      ({ f with content := writeAt 0 f.content offset (buffer.take length), pos := p }, true) := by
  have hseek : f.seekp offset = { f with pos := offset } := by simp [seekp, h.failbit_eq]
  have hgood : ({ f with pos := offset } : FileManager).good = true := h.good
  rw [writeToFile, hseek, memRead_of_le beyond hb]
  by_cases he : buffer.take length = []
  · have hoff : offset ≤ f.content.length := by have := h.length_eq; omega
    refine ⟨offset, ?_⟩
    simp [write, hgood, he, writeAt, Nat.sub_eq_zero_of_le hoff]
  · refine ⟨offset + (buffer.take length).length, ?_⟩
    have hg : ({ f with
        content := writeAt 0 f.content offset (buffer.take length),
        pos := offset + (buffer.take length).length } : FileManager).good = true := h.good
    simp only [write, hgood, he, if_true, if_false, hg]

theorem Serves.writeAt {f : FileManager} {size offset : ℕ} {bs : List UInt8} {p : ℕ}
    (h : f.Serves size) (hin : offset + bs.length ≤ size) :
    ({ f with content := Lib.writeAt 0 f.content offset bs, pos := p } : FileManager).Serves
      size :=
  ⟨by rw [writeAt_length (by rw [h.length_eq]; exact hin), h.length_eq], h.failbit_eq, h.eofbit_eq⟩

theorem Serves.withPos {f : FileManager} {size p : ℕ} (h : f.Serves size) :
    ({ f with pos := p } : FileManager).Serves size :=
  ⟨h.length_eq, h.failbit_eq, h.eofbit_eq⟩

/-! ### The files of several minions -/

variable {files : ℕ → FileManager} {size m : ℕ} {f : FileManager}

theorem serves_update (h : ∀ n, (files n).Serves size) (hf : f.Serves size) (n : ℕ) :
    (Function.update files m f n).Serves size := by
  by_cases hn : n = m
  · subst hn
    rw [Function.update_self]
    exact hf
  · rw [Function.update_of_ne hn]
    exact h n

theorem content_update (hf : f.content = (files m).content) (n : ℕ) :
    (Function.update files m f n).content = (files n).content := by
  by_cases hn : n = m
  · subst hn
    rw [Function.update_self, hf]
  · rw [Function.update_of_ne hn]

end FileManager

end IoTDrive.Minion
