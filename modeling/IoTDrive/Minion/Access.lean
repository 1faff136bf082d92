import IoTDrive.Minion.File
import Mathlib.Algebra.Group.Nat.Defs

/-! The accesses a minion takes out of its datagrams, against the array of bytes its file
stands for. The offset and the length of a datagram are 64-bit values, and nothing
compares them with the size of the file: the stream takes them as signed values, so that
those from 2^63 on are negative, a seek there fails and such a count is never met. A file
system that takes files of any length is assumed. -/

namespace IoTDrive.Minion

open Lib

namespace FileManager

/-! ### Signed offsets and counts -/

def seekgSigned (f : FileManager) (off : ℕ) : FileManager :=
  if off < 2 ^ 63 then f.seekg off else { f with failbit := true, eofbit := false }

def seekpSigned (f : FileManager) (off : ℕ) : FileManager :=
  if off < 2 ^ 63 then f.seekp off else { f with failbit := true }

/-- A negative count reads nothing and is not what was asked for. -/
def readSigned (f : FileManager) (n : ℕ) : FileManager × List UInt8 :=
  if n < 2 ^ 63 then f.read n
  else ({ f with failbit := true, eofbit := f.eofbit || f.good }, [])

/-- After a negative count the stream is bad, which every later call takes as failed. -/
def writeSigned (f : FileManager) (bs : List UInt8) : FileManager :=
  if bs.length < 2 ^ 63 then f.write bs
  else if f.good then { f with failbit := true } else f

def initSigned (disk : List UInt8) (size : ℕ) (_h : 0 < size) : FileManager :=
  let opened : FileManager := ⟨create disk, 0, false, false⟩
  ((opened.seekpSigned (size - 1)).writeSigned [0]).seekgSigned 0

def readFromFileSigned (f : FileManager) (offset length : ℕ) (heap : ℕ → UInt8) :
    FileManager × Bool × List UInt8 :=
  let (f', got) := (f.seekgSigned offset).readSigned length
  (f', f'.good, memRead got heap length)

/-- `WriteToFile` of the bytes that a buffer holds. -/
def writeToFileSigned (f : FileManager) (offset : ℕ) (data : List UInt8) :
    FileManager × Bool :=
  let f' := (f.seekpSigned offset).writeSigned data
  (f', f'.good)

end FileManager

/-! ### Accesses -/

inductive Access
  | readFromFile (offset length : ℕ) (heap : ℕ → UInt8)
  | writeToFile (offset : ℕ) (data : List UInt8)

namespace Access

def offset : Access → ℕ
  | readFromFile offset _ _ => offset
  | writeToFile offset _ => offset

def length : Access → ℕ
  | readFromFile _ length _ => length
  | writeToFile _ data => data.length

def Inside (size : ℕ) (a : Access) : Prop := a.offset + a.length ≤ size

instance (size : ℕ) (a : Access) : Decidable (a.Inside size) :=
  inferInstanceAs (Decidable (_ ≤ _))

/-- The stream takes the offset and the length as they are. -/
def Signed (a : Access) : Prop := a.offset < 2 ^ 63 ∧ a.length < 2 ^ 63

/-- The stream itself fails at the access when it reaches past the end of the file. -/
def Fails : Access → Prop
  | readFromFile offset length _ => 2 ^ 63 ≤ offset ∨ 0 < length
  | writeToFile offset data => 2 ^ 63 ≤ offset ∨ 2 ^ 63 ≤ data.length

/-- The bytes after the access, where `v` were before. -/
def store (size : ℕ) (v : ℕ → UInt8) : Access → ℕ → UInt8
  | readFromFile _ _ _, i => v i
  | writeToFile offset data, i =>
    if offset + data.length ≤ size ∧ offset ≤ i ∧ i < offset + data.length then
      data.getD (i - offset) 0
    else v i

/-- What the caller gets of the bytes `v`. -/
def bytes (v : ℕ → UInt8) : Access → List UInt8
  | readFromFile offset length _ => (List.range' offset length).map v
  | writeToFile _ _ => []

end Access

namespace FileManager

/-- The stream after an access and, where it answers `true`, the bytes in the buffer. -/
def access (f : FileManager) : Access → FileManager × Option (List UInt8)
  | .readFromFile offset length heap =>
    let (f', ok, buffer) := f.readFromFileSigned offset length heap
    (f', if ok then some buffer else none)
  | .writeToFile offset data =>
    let (f', ok) := f.writeToFileSigned offset data
    (f', if ok then some [] else none)

def after (f : FileManager) (as : List Access) : FileManager :=
  as.foldl (fun f a => (f.access a).1) f

def results (f : FileManager) : List Access → List (Option (List UInt8))
  | [] => []
  | a :: as => (f.access a).2 :: (f.access a).1.results as

/-- An access inside the file is one to an array of bytes; any other is refused and leaves
the contents and every later result as they are without it. -/
structure Answers (size : ℕ) (v : ℕ → UInt8) (f : FileManager) (a : Access)
    (later : List Access) : Prop where
  inside : a.Inside size → (f.access a).2 = some (a.bytes v) ∧
    (f.access a).1.content = (List.range size).map (a.store size v)
  outside : ¬ a.Inside size → (f.access a).2 = none ∧
    (f.access a).1.content = f.content ∧ (f.access a).1.results later = f.results later

/-- Every access of a sequence, where the file held `v` before. -/
def Harmless (size : ℕ) (v : ℕ → UInt8) (f : FileManager) (as : List Access) : Prop :=
  ∀ pre a post, as = pre ++ a :: post →
    Answers size (pre.foldl (Access.store size) v) (f.after pre) a post

end FileManager

/-- After the first access that is not inside the file no other is, and the stream fails at
the first two of these by itself. -/
def Spared (size : ℕ) : List Access → Prop
  | [] => True
  | a :: as =>
    if a.Inside size then a.Signed ∧ Spared size as
    else a.Fails ∧ (∀ b ∈ as, ¬ b.Inside size) ∧ ∀ b ∈ as.head?, b.Fails

namespace FileManager

variable {f : FileManager} {size : ℕ} {v : ℕ → UInt8} {a : Access} {as : List Access}

theorem harmless_cons : Harmless size v f (a :: as) ↔
    Answers size v f a as ∧ Harmless size (a.store size v) (f.access a).1 as := by
  constructor
  · intro h
    refine ⟨h [] a as rfl, ?_⟩
    intro pre b post has
    exact h (a :: pre) b post (congrArg (a :: ·) has)
  · rintro ⟨hhead, htail⟩ pre b post has
    cases pre with
    | nil =>
      obtain ⟨rfl, rfl⟩ := List.cons.inj has
      exact hhead
    | cons c pre =>
      obtain ⟨rfl, hrest⟩ := List.cons.inj has
      exact htail pre b post hrest

/-! ### What one access does to the stream -/

theorem access_readFromFile {offset length : ℕ} {heap : ℕ → UInt8} :
    f.access (.readFromFile offset length heap) =
      (((f.seekgSigned offset).readSigned length).1,
        if ((f.seekgSigned offset).readSigned length).1.good then
          some (memRead ((f.seekgSigned offset).readSigned length).2 heap length)
        else none) := rfl

theorem access_writeToFile {offset : ℕ} {data : List UInt8} :
    f.access (.writeToFile offset data) =
      ((f.seekpSigned offset).writeSigned data,
        if ((f.seekpSigned offset).writeSigned data).good then some [] else none) := rfl

theorem seekgSigned_content (f : FileManager) (off : ℕ) :
    (f.seekgSigned off).content = f.content := by
  unfold seekgSigned seekg
  split_ifs <;> rfl

theorem seekpSigned_content (f : FileManager) (off : ℕ) :
    (f.seekpSigned off).content = f.content := by
  unfold seekpSigned seekp
  split_ifs <;> rfl

theorem readSigned_content (f : FileManager) (n : ℕ) :
    (f.readSigned n).1.content = f.content := by
  unfold readSigned read
  dsimp only
  split_ifs <;> rfl

theorem good_failed (h : f.failbit = true) : f.good = false := by simp [good, h]

theorem seekgSigned_failed (h : f.failbit = true) (off : ℕ) :
    (f.seekgSigned off).failbit = true := by
  unfold seekgSigned seekg
  split_ifs
  · exact h
  · rfl

theorem seekpSigned_failed (h : f.failbit = true) (off : ℕ) :
    (f.seekpSigned off).failbit = true := by
  unfold seekpSigned seekp
  split_ifs
  · exact h
  · rfl

theorem readSigned_failed (h : f.failbit = true) (n : ℕ) :
    (f.readSigned n).1.failbit = true := by
  by_cases hn : n < 2 ^ 63
  · rw [readSigned, if_pos hn, read, good_failed h]
    rfl
  · rw [readSigned, if_neg hn]

theorem writeSigned_failed (h : f.failbit = true) (bs : List UInt8) :
    f.writeSigned bs = f := by
  by_cases hlength : bs.length < 2 ^ 63
  · rw [writeSigned, if_pos hlength, write, good_failed h]
    rfl
  · rw [writeSigned, if_neg hlength, good_failed h]
    rfl

/-- The access is refused, and every later one will be. -/
structure Refused (f : FileManager) (a : Access) : Prop where
  result_eq : (f.access a).2 = none
  failbit_eq : (f.access a).1.failbit = true
  content_eq : (f.access a).1.content = f.content

theorem refused_read {offset length : ℕ} {heap : ℕ → UInt8}
    (h : ((f.seekgSigned offset).readSigned length).1.failbit = true) :
    Refused f (.readFromFile offset length heap) := by
  refine ⟨?_, h, ?_⟩
  · rw [access_readFromFile, good_failed h]
    rfl
  · rw [access_readFromFile, readSigned_content, seekgSigned_content]

/-- A write to a stream that the seek has failed. -/
theorem refused_write {offset : ℕ} {data : List UInt8}
    (h : (f.seekpSigned offset).failbit = true) : Refused f (.writeToFile offset data) := by
  have hwrite := writeSigned_failed h data
  constructor
  case result_eq =>
    rw [access_writeToFile, hwrite, good_failed h]
    rfl
  case failbit_eq => rw [access_writeToFile, hwrite, h]
  case content_eq => rw [access_writeToFile, hwrite, seekpSigned_content]

theorem Refused.not_answers {later : List Access} (h : Refused f a) (hin : a.Inside size) :
    ¬ Answers size v f a later := by
  intro hanswers
  have hanswer := (hanswers.inside hin).1
  rw [h.result_eq] at hanswer
  cases hanswer

/-! ### A failed stream -/

section Failed

/-- A failed stream refuses every access and stays failed. -/
theorem access_failed (h : f.failbit = true) (a : Access) : Refused f a := by
  cases a with
  | readFromFile offset length heap =>
    exact refused_read (readSigned_failed (seekgSigned_failed h offset) length)
  | writeToFile offset data => exact refused_write (seekpSigned_failed h offset)

theorem results_failed (h : f.failbit = true) (as : List Access) :
    f.results as = List.replicate as.length none := by
  induction as generalizing f with
  | nil => rfl
  | cons a as ih =>
    have hrefused := access_failed h a
    rw [results, hrefused.result_eq, ih hrefused.failbit_eq, List.length_cons,
      List.replicate_succ]

theorem harmless_failed (h : f.failbit = true) :
    Harmless size v f as ↔ ∀ a ∈ as, ¬ a.Inside size := by
  induction as generalizing f v with
  | nil => simp [Harmless]
  | cons a as ih =>
    have hrefused := access_failed h a
    rw [harmless_cons, ih hrefused.failbit_eq, List.forall_mem_cons]
    refine and_congr_left fun _ => ⟨?_, ?_⟩
    · exact fun hanswers hinside => hrefused.not_answers hinside hanswers
    · intro hout
      refine ⟨fun hinside => absurd hinside hout,
        fun _ => ⟨hrefused.result_eq, hrefused.content_eq, ?_⟩⟩
      rw [results_failed h, results_failed hrefused.failbit_eq]

end Failed

/-! ### A stream without an error -/

/-- A good stream on a file of the bytes `v`. -/
structure Holds (size : ℕ) (v : ℕ → UInt8) (f : FileManager) : Prop where
  serves : f.Serves size
  content_eq : f.content = (List.range size).map v

section Good

theorem readFromFileSigned_eq {offset length : ℕ} (hoffset : offset < 2 ^ 63)
    (hlength : length < 2 ^ 63) (heap : ℕ → UInt8) :
    f.readFromFileSigned offset length heap = f.readFromFile offset length heap := by
  rw [readFromFileSigned, seekgSigned, if_pos hoffset, readSigned, if_pos hlength, readFromFile]

theorem writeToFileSigned_eq {offset : ℕ} {data : List UInt8} (hoffset : offset < 2 ^ 63)
    (hlength : data.length < 2 ^ 63) (beyond : ℕ → UInt8) :
    f.writeToFileSigned offset data = f.writeToFile offset data.length data beyond := by
  rw [writeToFileSigned, seekpSigned, if_pos hoffset, writeSigned, if_pos hlength, writeToFile,
    memRead_self]

theorem initSigned_eq (disk : List UInt8) (h : 0 < size) (hsize : size ≤ 2 ^ 63) :
    initSigned disk size h = init disk size h := by
  have hlast : size - 1 < 2 ^ 63 := by omega
  rw [initSigned, seekpSigned, if_pos hlast, writeSigned, if_pos (by simp), seekgSigned,
    if_pos (by simp), init]

theorem drop_take_range {offset length : ℕ} (hin : offset + length ≤ size) :
    (((List.range size).map v).drop offset).take length =
      (List.range' offset length).map v := by
  apply List.ext_getElem?
  intro i
  by_cases hi : i < length
  · rw [getElem?_take_drop hi, List.getElem?_map, List.getElem?_map, List.getElem?_range' hi,
      List.getElem?_range (by omega), Nat.one_mul]
  · rw [List.getElem?_eq_none (by simp; omega), List.getElem?_eq_none (by simp; omega)]

theorem writeAt_range {offset : ℕ} {data : List UInt8}
    (hin : offset + data.length ≤ size) :
    writeAt 0 ((List.range size).map v) offset data =
      (List.range size).map ((Access.writeToFile offset data).store size v) := by
  apply List.ext_getElem?
  intro i
  rw [getElem?_writeAt (by simp; omega)]
  by_cases hi : i < size
  · rw [List.getElem?_map, List.getElem?_map, List.getElem?_range hi, Option.map_some,
      Option.map_some, Access.store]
    by_cases hcov : offset ≤ i ∧ i < offset + data.length
    · have hlt : i - offset < data.length := by omega
      rw [if_pos hcov, if_pos ⟨hin, hcov⟩, List.getD_eq_getElem?_getD,
        List.getElem?_eq_getElem hlt, Option.getD_some]
    · rw [if_neg hcov, if_neg (fun h => hcov h.2)]
  · rw [if_neg (by omega), List.getElem?_eq_none (by simp; omega),
      List.getElem?_eq_none (by simp; omega)]

/-- Inside the file the stream is an array of bytes. -/
theorem access_inside (h : Holds size v f) (hin : a.Inside size) (hsigned : a.Signed) :
    (f.access a).2 = some (a.bytes v) ∧ Holds size (a.store size v) (f.access a).1 := by
  cases a with
  | readFromFile offset length heap =>
    obtain ⟨hoffset, hlength⟩ : offset < 2 ^ 63 ∧ length < 2 ^ 63 := hsigned
    have hle : offset + length ≤ size := hin
    have hread := readFromFile_eq h.serves hle heap
    have hbytes : (f.content.drop offset).take length = (List.range' offset length).map v := by
      rw [h.content_eq, drop_take_range hle]
    have haccess : f.access (.readFromFile offset length heap) =
        ({ f with pos := offset + length }, some ((List.range' offset length).map v)) := by
      rw [access, readFromFileSigned_eq hoffset hlength, hread, hbytes]
      rfl
    rw [haccess]
    exact ⟨rfl, h.serves.withPos, h.content_eq⟩
  | writeToFile offset data =>
    obtain ⟨hoffset, hlength⟩ : offset < 2 ^ 63 ∧ data.length < 2 ^ 63 := hsigned
    have hle : offset + data.length ≤ size := hin
    obtain ⟨p, hwrite⟩ := writeToFile_eq h.serves hle (Nat.le_refl _) (fun _ => 0)
    rw [List.take_length] at hwrite
    have haccess : f.access (.writeToFile offset data) =
        ({ f with content := writeAt 0 f.content offset data, pos := p }, some []) := by
      rw [access, writeToFileSigned_eq hoffset hlength (fun _ => 0), hwrite]
      rfl
    rw [haccess]
    refine ⟨rfl, h.serves.writeAt hle, ?_⟩
    change writeAt 0 f.content offset data = _
    rw [h.content_eq, writeAt_range hle]

theorem fails_of_not_signed (hunsigned : ¬ a.Signed) : a.Fails := by
  cases a with
  | readFromFile offset length heap =>
    change 2 ^ 63 ≤ offset ∨ 0 < length
    change ¬ (offset < 2 ^ 63 ∧ length < 2 ^ 63) at hunsigned
    omega
  | writeToFile offset data =>
    change 2 ^ 63 ≤ offset ∨ 2 ^ 63 ≤ data.length
    change ¬ (offset < 2 ^ 63 ∧ data.length < 2 ^ 63) at hunsigned
    omega

theorem Serves.seekgSigned (h : f.Serves size) {off : ℕ} (hoff : off < 2 ^ 63) :
    f.seekgSigned off = { f with pos := off } := by
  rw [FileManager.seekgSigned, if_pos hoff]
  simp [seekg, h.failbit_eq, h.eofbit_eq]

theorem Serves.seekpSigned (h : f.Serves size) {off : ℕ} (hoff : off < 2 ^ 63) :
    f.seekpSigned off = { f with pos := off } := by
  rw [FileManager.seekpSigned, if_pos hoff]
  simp [seekp, h.failbit_eq]

/-- A read past the end of the file fails. -/
theorem Serves.read_short (h : f.Serves size) {n : ℕ} (hn : 0 < n) (hout : size < f.pos + n) :
    (f.read n).1.failbit = true := by
  have hshort : ((f.content.drop f.pos).take n).length < n := by
    rw [List.length_take, List.length_drop, h.length_eq]
    omega
  rw [read, if_pos h.good, if_pos hshort]

/-- Where it cannot serve an access the stream may fail, and then it refuses. -/
theorem access_fails (h : f.Serves size) (hout : a.Inside size → ¬ a.Signed) (hfails : a.Fails) :
    Refused f a := by
  cases a with
  | readFromFile offset length heap =>
    apply refused_read
    by_cases hoffset : offset < 2 ^ 63
    · have hfails' : 2 ^ 63 ≤ offset ∨ 0 < length := hfails
      rw [h.seekgSigned hoffset]
      by_cases hlength : length < 2 ^ 63
      · have hpast : size < offset + length :=
          Nat.lt_of_not_le fun hin => hout hin ⟨hoffset, hlength⟩
        rw [readSigned, if_pos hlength]
        exact h.withPos.read_short (by omega) hpast
      · rw [readSigned, if_neg hlength]
    · apply readSigned_failed
      rw [seekgSigned, if_neg hoffset]
  | writeToFile offset data =>
    by_cases hoffset : offset < 2 ^ 63
    · have hlength : ¬ data.length < 2 ^ 63 := by
        have hfails' : 2 ^ 63 ≤ offset ∨ 2 ^ 63 ≤ data.length := hfails
        omega
      have hgood : ({ f with pos := offset } : FileManager).good = true := h.withPos.good
      have hwrite : (f.seekpSigned offset).writeSigned data =
          { f with pos := offset, failbit := true } := by
        rw [h.seekpSigned hoffset, writeSigned, if_neg hlength, if_pos hgood]
      refine ⟨?_, ?_, ?_⟩
      all_goals rw [access_writeToFile, hwrite]
      rfl
    · apply refused_write
      rw [seekpSigned, if_neg hoffset]

/-- Where the stream does not fail it answers past the end of the file too. -/
theorem access_answered (h : f.Serves size) (hnot : ¬ a.Fails) : (f.access a).2 ≠ none := by
  cases a with
  | readFromFile offset length heap =>
    have hnot' : ¬ (2 ^ 63 ≤ offset ∨ 0 < length) := hnot
    have hoffset : offset < 2 ^ 63 := by omega
    obtain rfl : length = 0 := by omega
    have hgood : ({ f with pos := offset } : FileManager).good = true := h.withPos.good
    rw [access_readFromFile, h.seekgSigned hoffset]
    simp [readSigned, read, hgood]
  | writeToFile offset data =>
    have hnot' : ¬ (2 ^ 63 ≤ offset ∨ 2 ^ 63 ≤ data.length) := hnot
    have hoffset : offset < 2 ^ 63 := by omega
    have hlength : data.length < 2 ^ 63 := by omega
    have hgood : ({ f with pos := offset } : FileManager).good = true := h.withPos.good
    have hgood' : ((f.seekpSigned offset).writeSigned data).good = true := by
      rw [h.seekpSigned hoffset, writeSigned, if_pos hlength, write, if_pos hgood]
      split_ifs
      · exact hgood
      · exact h.good
    rw [access_writeToFile, if_pos hgood']
    simp

end Good

/-! ### Sequences -/

/-- Accesses that all reach past the end are refused if and only if the first is. -/
theorem results_outside (h : f.Serves size) (hout : ∀ b ∈ as, ¬ b.Inside size) :
    f.results as = List.replicate as.length none ↔ ∀ b ∈ as.head?, b.Fails := by
  cases as with
  | nil => simp [results]
  | cons b as =>
    rw [results, List.length_cons, List.replicate_succ]
    constructor
    · intro hnone c hc
      obtain rfl : b = c := by simpa using hc
      by_contra hnot
      exact access_answered h hnot (List.cons.inj hnone).1
    · intro hhead
      have hnot := hout b List.mem_cons_self
      have hrefused := access_fails h (fun hin => absurd hin hnot) (hhead b rfl)
      rw [hrefused.result_eq, results_failed hrefused.failbit_eq]

theorem harmless_iff_spared (h : Holds size v f) : Harmless size v f as ↔ Spared size as := by
  induction as generalizing f v with
  | nil => simp [Harmless, Spared]
  | cons a as ih =>
    rw [harmless_cons, Spared]
    by_cases hin : a.Inside size
    · rw [if_pos hin]
      by_cases hsigned : a.Signed
      · obtain ⟨hanswer, hholds⟩ := access_inside h hin hsigned
        rw [ih hholds]
        refine and_congr_left fun _ => iff_of_true ?_ hsigned
        exact ⟨fun _ => ⟨hanswer, hholds.content_eq⟩, fun hnot => absurd hin hnot⟩
      · -- a good stream cannot take the access, although it is inside the file
        have hrefused :=
          access_fails h.serves (fun _ => hsigned) (fails_of_not_signed hsigned)
        exact iff_of_false (fun hharmless => hrefused.not_answers hin hharmless.1)
          fun hspared => hsigned hspared.1
    · rw [if_neg hin]
      by_cases hfails : a.Fails
      · have hrefused := access_fails h.serves (fun hinside => absurd hinside hin) hfails
        have hresults := results_failed hrefused.failbit_eq as
        rw [harmless_failed hrefused.failbit_eq]
        constructor
        · rintro ⟨hanswers, hout⟩
          have hlater := (hanswers.outside hin).2.2
          rw [hresults] at hlater
          exact ⟨hfails, hout, (results_outside h.serves hout).mp hlater.symm⟩
        · rintro ⟨-, hout, hhead⟩
          refine ⟨⟨fun hinside => absurd hinside hin,
            fun _ => ⟨hrefused.result_eq, hrefused.content_eq, ?_⟩⟩, hout⟩
          rw [hresults, (results_outside h.serves hout).mpr hhead]
      · refine iff_of_false ?_ fun hspared => hfails hspared.1
        intro hharmless
        exact access_answered h.serves hfails (hharmless.1.outside hin).1

/-! ### The file of a minion -/

theorem initSigned_holds (disk : List UInt8) (h : 0 < size) (hsize : size ≤ 2 ^ 63) :
    Holds size (fun _ => 0) (initSigned disk size h) := by
  rw [initSigned_eq disk h hsize]
  refine ⟨init_serves disk h, ?_⟩
  rw [init_eq]
  simp

theorem initSigned_failed (disk : List UInt8) (h : 0 < size) (hsize : 2 ^ 63 < size) :
    (initSigned disk size h).failbit = true := by
  apply seekgSigned_failed
  rw [writeSigned_failed] <;> rw [seekpSigned, if_neg (by omega)]

/-- What the accesses to a new file may be: on a file whose size the stream can seek to they
are inside the file up to some point and the stream fails behind it, and on a larger
one none is inside. -/
def Admitted (size : ℕ) (as : List Access) : Prop :=
  if size ≤ 2 ^ 63 then Spared size as else ∀ a ∈ as, ¬ a.Inside size

/-- Accesses inside a new file see an array of bytes, and the others are refused and leave no
trace, if and only if the sequence is admitted: the first short read or seek that fails
makes the stream refuse everything behind it, and a write past the end extends the file. -/
theorem harmless_iff (disk : List UInt8) {size : ℕ} (h : 0 < size) (as : List Access) :
    Harmless size (fun _ => 0) (initSigned disk size h) as ↔ Admitted size as := by
  unfold Admitted
  split_ifs with hsize
  · exact harmless_iff_spared (initSigned_holds disk h hsize)
  · exact harmless_failed (initSigned_failed disk h (Nat.lt_of_not_le hsize))

/-- Two bytes written and read back, and a read past the end as the last. -/
theorem harmless_iff_readBack : Harmless 4 (fun _ => 0) (initSigned [9] 4 (by decide))
    [.writeToFile 1 [5, 6], .readFromFile 0 4 fun _ => 0, .readFromFile 3 2 fun _ => 0] := by
  refine (harmless_iff [9] (by decide) _).mpr ?_
  simp [Admitted, Spared, Access.Inside, Access.Signed, Access.Fails, Access.offset,
    Access.length]

/-- Two bytes at position 3 of a file of four, and then the first. -/
def shortRead : List Access :=
  [.readFromFile 3 2 fun _ => 0, .readFromFile 0 1 fun _ => 0]

theorem harmless_shortRead :
    (initSigned [] 4 (by decide)).results shortRead = [none, none] ∧
      (initSigned [] 4 (by decide)).results shortRead.tail = [some [0]] ∧
      (initSigned [] 4 (by decide)).results [.writeToFile 4 [7]] = [some []] ∧
      ¬ Harmless 4 (fun _ => 0) (initSigned [] 4 (by decide)) shortRead := by
  refine ⟨by decide, by decide, by decide, fun h => ?_⟩
  have hlast := (h [.readFromFile 3 2 fun _ => 0] (.readFromFile 0 1 fun _ => 0) [] rfl).inside
    (by decide)
  have hsecond : (((initSigned [] 4 (by decide)).after [.readFromFile 3 2 fun _ => 0]).access
      (.readFromFile 0 1 fun _ => 0)).2 = none := by decide
  rw [hsecond] at hlast
  cases hlast.1

end FileManager

end IoTDrive.Minion
