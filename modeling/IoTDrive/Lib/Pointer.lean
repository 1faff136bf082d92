import IoTDrive.Lib.Words
import Mathlib.Tactic.SplitIfs
import Mathlib.Tactic.TypeStar

/-! Memory behind an advancing pointer. Memory is a function of the address, so
reading past what was written yields whatever stands there. A writer stores a block and
moves on; a reader loads a block, moves on and leaves the addresses it touched
in a log, so that where it read can be stated beside what it read. -/

namespace IoTDrive.Lib

variable {α : Type*}

/-- The `n` values of memory from `pos` on. -/
def load (mem : ℕ → α) (pos n : ℕ) : List α := (List.range' pos n).map mem

/-- Memory after storing a block at `pos`. -/
def storeAt (mem : ℕ → α) (pos : ℕ) (xs : List α) : ℕ → α := fun i =>
  if i < pos then mem i else xs[i - pos]?.getD (mem i)

@[simp] theorem load_length (mem : ℕ → α) (pos n : ℕ) : (load mem pos n).length = n := by
  simp [load]

theorem getElem?_load {mem : ℕ → α} {pos n i : ℕ} (h : i < n) :
    (load mem pos n)[i]? = some (mem (pos + i)) := by
  simp [load, h]

theorem load_add (mem : ℕ → α) (pos m n : ℕ) :
    load mem pos (m + n) = load mem pos m ++ load mem (pos + m) n := by
  rw [load, load, load, ← List.map_append, List.range'_append_1]

/-- Memory that holds a list from `pos` on. -/
theorem load_eq_of_getElem? {mem : ℕ → α} {pos n : ℕ} {xs : List α} (hn : xs.length = n)
    (h : ∀ i < n, xs[i]? = some (mem (pos + i))) : load mem pos n = xs := by
  subst hn
  apply List.ext_getElem?
  intro i
  by_cases hi : i < xs.length
  · rw [getElem?_load hi, h i hi]
  · rw [List.getElem?_eq_none (by simpa using hi), List.getElem?_eq_none (by omega)]

/-- Two adjacent blocks in memory. -/
theorem load_eq_append {mem : ℕ → α} {pos : ℕ} {xs ys : List α} :
    load mem pos (xs ++ ys).length = xs ++ ys ↔
      load mem pos xs.length = xs ∧ load mem (pos + xs.length) ys.length = ys := by
  rw [List.length_append, load_add]
  constructor
  · intro h
    exact List.append_inj h (by simp)
  · rintro ⟨hx, hy⟩
    rw [hx, hy]

theorem storeAt_storeAt (mem : ℕ → α) (pos : ℕ) (xs ys : List α) :
    storeAt (storeAt mem pos xs) (pos + xs.length) ys = storeAt mem pos (xs ++ ys) := by
  funext i
  simp only [storeAt]
  by_cases hp : i < pos
  · simp [hp, Nat.lt_add_right xs.length hp]
  · by_cases hx : i < pos + xs.length
    · rw [if_pos hx, List.getElem?_append_left (by omega)]
    · rw [if_neg hx, List.getElem?_append_right (by omega), List.getElem?_eq_none
        (by omega : xs.length ≤ i - pos), show i - pos - xs.length = i - (pos + xs.length) by omega]
      simp [hp]

theorem load_storeAt (mem : ℕ → α) (pos : ℕ) (xs : List α) :
    load (storeAt mem pos xs) pos xs.length = xs := by
  apply load_eq_of_getElem? rfl
  intro i hi
  simp [storeAt, hi]

/-! ### Writing -/

/-- A pointer and the memory it points into. -/
structure Cursor (α : Type*) where
  memory : ℕ → α
  pos : ℕ

def Cursor.put (c : Cursor α) (xs : List α) : Cursor α :=
  ⟨storeAt c.memory c.pos xs, c.pos + xs.length⟩

theorem Cursor.put_put (c : Cursor α) (xs ys : List α) :
    (c.put xs).put ys = c.put (xs ++ ys) := by
  simp [Cursor.put, storeAt_storeAt, Nat.add_assoc]

/-- A pointer that only notes where it stored, and which values of another block it copied. -/
structure Pen where
  pos : ℕ
  written : List ℕ
  copied : List ℕ
  deriving DecidableEq, Repr

namespace Pen

def put (p : Pen) (n : ℕ) : Pen := ⟨p.pos + n, p.written ++ List.range' p.pos n, p.copied⟩

/-- Copy the first `n` values of a block. -/
def copy (p : Pen) (n : ℕ) : Pen := { p.put n with copied := p.copied ++ List.range n }

/-- The pen has passed over `n` addresses, all of which it wrote. -/
def Passed (p : Pen) (start n : ℕ) : Prop := p.pos = start + n ∧ p.written = List.range' start n

variable {p : Pen} {start k : ℕ}

theorem passed_start : (⟨start, [], []⟩ : Pen).Passed start 0 := ⟨rfl, rfl⟩

theorem Passed.put (h : p.Passed start k) (n : ℕ) : (p.put n).Passed start (k + n) := by
  unfold Passed Pen.put
  rw [h.1, h.2, List.range'_append_1]
  exact ⟨Nat.add_assoc _ _ _, rfl⟩

theorem Passed.copy (h : p.Passed start k) (n : ℕ) : (p.copy n).Passed start (k + n) := h.put n

theorem Passed.written_lt_iff (h : p.Passed start k) {size : ℕ} :
    (∀ i ∈ p.written, start ≤ i ∧ i < start + size) ↔ k ≤ size := by
  rw [h.2]
  constructor
  · intro hin
    by_contra hlt
    have hlast := hin (start + size) (List.mem_range'_1.mpr ⟨by omega, by omega⟩)
    omega
  · intro hle i hi
    have hrange := List.mem_range'_1.mp hi
    omega

end Pen

/-! ### Reading -/

/-- Where a piece of reading code ended: its result, or nothing where it gave up, the
pointer, and the addresses it read. -/
structure Outcome (β : Type*) where
  value : Option β
  pos : ℕ
  reads : List ℕ
  deriving DecidableEq, Repr

/-- Code that reads memory through a pointer. -/
structure Reader (α : Type*) (β : Type*) where
  run : (ℕ → α) → ℕ → Outcome β

namespace Reader

/-- Two pieces of code in turn; the second does not run where the first gave up. -/
def andThen {β γ : Type*} (x : Reader α β) (f : β → Reader α γ) : Reader α γ where
  run mem pos :=
    match x.run mem pos with
    | ⟨none, p, r⟩ => ⟨none, p, r⟩
    | ⟨some v, p, r⟩ => { (f v).run mem p with reads := r ++ ((f v).run mem p).reads }

instance : Monad (Reader α) where
  pure v := ⟨fun _ pos => ⟨some v, pos, []⟩⟩
  bind := andThen

/-- Load a block of `n` values. -/
def block (n : ℕ) : Reader α (List α) where
  run mem pos := ⟨some (load mem pos n), pos + n, List.range' pos n⟩

/-- Go on only if `b` holds. -/
def require (b : Bool) : Reader α Unit where
  run _ pos := ⟨if b then some () else none, pos, []⟩

/-- A little-endian 64-bit word and a single byte. -/
def word64 : Reader UInt8 UInt64 := do return UInt64.ofNat (leNat (← block 8))

def byte : Reader UInt8 UInt8 where
  run mem pos := ⟨some (mem pos), pos + 1, [pos]⟩

variable {γ : Type} {pos : ℕ}

@[simp] theorem run_pure {mem : ℕ → α} (v : γ) :
    (pure v : Reader α γ).run mem pos = ⟨some v, pos, []⟩ := rfl

@[simp] theorem run_block_bind {α : Type} {mem : ℕ → α} (n : ℕ) (f : List α → Reader α γ) :
    (block n >>= f).run mem pos =
      { (f (load mem pos n)).run mem (pos + n) with
        reads := List.range' pos n ++ ((f (load mem pos n)).run mem (pos + n)).reads } := rfl

@[simp] theorem run_word64_bind {mem : ℕ → UInt8} (f : UInt64 → Reader UInt8 γ) :
    (word64 >>= f).run mem pos =
      { (f (UInt64.ofNat (leNat (load mem pos 8)))).run mem (pos + 8) with
        reads := List.range' pos 8 ++
          ((f (UInt64.ofNat (leNat (load mem pos 8)))).run mem (pos + 8)).reads } := rfl

@[simp] theorem run_byte_bind {mem : ℕ → UInt8} (f : UInt8 → Reader UInt8 γ) :
    (byte >>= f).run mem pos =
      { (f (mem pos)).run mem (pos + 1) with
        reads := pos :: ((f (mem pos)).run mem (pos + 1)).reads } := rfl

theorem run_require_bind {mem : ℕ → α} (b : Bool) (f : Unit → Reader α γ) :
    (require b >>= f).run mem pos = if b then (f ()).run mem pos else ⟨none, pos, []⟩ := by
  cases b <;> rfl

section Bind
variable {β : Type} {mem : ℕ → α} {x : Reader α β} {f : β → Reader α γ} {p : ℕ} {r : List ℕ}

theorem run_bind_of_none (h : x.run mem pos = ⟨none, p, r⟩) :
    (x >>= f).run mem pos = ⟨none, p, r⟩ := by
  show (x.andThen f).run mem pos = _
  simp [andThen, h]

theorem run_bind_of_some {v : β} (h : x.run mem pos = ⟨some v, p, r⟩) :
    (x >>= f).run mem pos = { (f v).run mem p with reads := r ++ ((f v).run mem p).reads } := by
  show (x.andThen f).run mem pos = _
  simp [andThen, h]

/-- Code that only changes the shape of a result. -/
theorem run_bind_pure (x : Reader α β) (g : β → γ) :
    (x >>= fun v => pure (g v)).run mem pos =
      { x.run mem pos with value := (x.run mem pos).value.map g } := by
  rcases hrun : x.run mem pos with ⟨_ | v, p, r⟩
  · rw [run_bind_of_none hrun]
    rfl
  · rw [run_bind_of_some hrun]
    simp

end Bind

/-- Code whose reads are the addresses its pointer passed over. -/
def Contiguous {β : Type*} (x : Reader α β) : Prop := ∀ mem pos, ∃ n,
  (x.run mem pos).pos = pos + n ∧ (x.run mem pos).reads = List.range' pos n

section Contiguous
variable {β : Type}

theorem contiguous_pure (v : β) : (pure v : Reader α β).Contiguous := fun _ _ => ⟨0, rfl, rfl⟩

theorem contiguous_block (n : ℕ) : (block n : Reader α (List α)).Contiguous :=
  fun _ _ => ⟨n, rfl, rfl⟩

theorem contiguous_require (b : Bool) : (require b : Reader α Unit).Contiguous :=
  fun _ _ => ⟨0, rfl, rfl⟩

theorem contiguous_word64 : word64.Contiguous := fun _ _ => ⟨8, rfl, by simp [word64]⟩

theorem contiguous_byte : byte.Contiguous := fun _ _ => ⟨1, rfl, rfl⟩

theorem Contiguous.bind {x : Reader α β} {f : β → Reader α γ} (hx : x.Contiguous)
    (hf : ∀ v, (f v).Contiguous) : (x >>= f).Contiguous := by
  intro mem pos
  obtain ⟨n, hp, hr⟩ := hx mem pos
  rcases hrun : x.run mem pos with ⟨_ | v, p, r⟩
  · rw [hrun] at hp hr
    rw [run_bind_of_none hrun]
    exact ⟨n, hp, hr⟩
  · rw [hrun] at hp hr
    simp only at hp hr
    subst hp hr
    obtain ⟨k, hp', hr'⟩ := hf v mem (pos + n)
    rw [run_bind_of_some hrun]
    refine ⟨n + k, ?_, ?_⟩
    · simp only [hp', Nat.add_assoc]
    · simp only [hr', List.range'_append_1]

/-- Contiguous code stays below a bound exactly if its pointer ends there. -/
theorem Contiguous.reads_lt_iff {x : Reader α β} (hx : x.Contiguous) {mem : ℕ → α} {n : ℕ}
    (hn : pos ≤ n) : (∀ i ∈ (x.run mem pos).reads, i < n) ↔ (x.run mem pos).pos ≤ n := by
  obtain ⟨k, hp, hr⟩ := hx mem pos
  rw [hp, hr]
  constructor
  · intro h
    by_contra hlt
    have := h (pos + (k - 1)) (List.mem_range'_1.mpr ⟨by omega, by omega⟩)
    omega
  · intro h i hi
    have := (List.mem_range'_1.mp hi).2
    omega

end Contiguous

end Reader

end IoTDrive.Lib
