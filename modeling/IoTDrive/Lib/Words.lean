import Mathlib.Data.Nat.Notation
import Mathlib.Tactic.Ring

/-! Fixed-width words as byte strings. `leBytes k n` is the `k`-byte little-endian
image of `n` modulo `256 ^ k`; `leNat` reads such an image back, and `beBytes` is
the network byte order of the same word. The `take` functions read one field at
the front of a buffer and return what follows it, the way a decoder advances a
pointer; they fail where the buffer ends first. -/

namespace IoTDrive.Lib

/-- The little-endian image of `n` in `k` bytes. -/
def leBytes : ℕ → ℕ → List UInt8
  | 0, _ => []
  | k + 1, n => UInt8.ofNat n :: leBytes k (n / 256)

/-- The number a little-endian byte string stands for. -/
def leNat : List UInt8 → ℕ
  | [] => 0
  | b :: bs => b.toNat + 256 * leNat bs

/-- The big-endian image of `n` in `k` bytes. -/
def beBytes (k n : ℕ) : List UInt8 := (leBytes k n).reverse

@[simp] theorem leBytes_length (k n : ℕ) : (leBytes k n).length = k := by
  induction k generalizing n with
  | zero => rfl
  | succ k ih => simp [leBytes, ih]

@[simp] theorem beBytes_length (k n : ℕ) : (beBytes k n).length = k := by
  simp [beBytes]

theorem leNat_leBytes (k n : ℕ) : leNat (leBytes k n) = n % 256 ^ k := by
  induction k generalizing n with
  | zero => simp [leBytes, leNat, Nat.mod_one]
  | succ k ih =>
    have hmul : n % 256 ^ (k + 1) = n % 256 + 256 * (n / 256 % 256 ^ k) := by
      rw [pow_succ' 256, Nat.mod_mul]
    rw [leBytes, leNat, ih, hmul, UInt8.toNat_ofNat']

theorem leNat_leBytes_of_lt {k n : ℕ} (h : n < 256 ^ k) : leNat (leBytes k n) = n := by
  rw [leNat_leBytes, Nat.mod_eq_of_lt h]

theorem leNat_lt : ∀ bs : List UInt8, leNat bs < 256 ^ bs.length
  | [] => by simp [leNat]
  | b :: bs => by
    have ih := leNat_lt bs
    have hb := b.toNat_lt
    rw [leNat, List.length_cons, pow_succ' 256]
    omega

/-- A word of `n` bytes fits in `8 * n` bits. -/
theorem leNat_lt_of_length {w : List UInt8} {n : ℕ} (h : w.length = n) : leNat w < 2 ^ (8 * n) := by
  rw [pow_mul, ← h]
  exact leNat_lt w

theorem leNat_append (xs ys : List UInt8) :
    leNat (xs ++ ys) = leNat xs + 256 ^ xs.length * leNat ys := by
  induction xs with
  | nil => simp [leNat]
  | cons x xs ih =>
    rw [List.cons_append, leNat, leNat, ih, List.length_cons, pow_succ]
    ring

theorem leBytes_leNat (bs : List UInt8) : leBytes bs.length (leNat bs) = bs := by
  induction bs with
  | nil => rfl
  | cons b bs ih =>
    have hb := b.toNat_lt
    have hlow : UInt8.ofNat (b.toNat + 256 * leNat bs) = b := by
      apply UInt8.toNat_inj.mp
      rw [UInt8.toNat_ofNat']
      omega
    have hhigh : (b.toNat + 256 * leNat bs) / 256 = leNat bs := by omega
    rw [List.length_cons, leNat, leBytes, hlow, hhigh, ih]

theorem leBytes_mod (k n : ℕ) : leBytes k (n % 256 ^ k) = leBytes k n := by
  have h := leBytes_leNat (leBytes k n)
  rwa [leBytes_length, leNat_leBytes] at h

theorem leBytes_add (k m n : ℕ) :
    leBytes (k + m) n = leBytes k n ++ leBytes m (n / 256 ^ k) := by
  induction k generalizing n with
  | zero => simp [leBytes]
  | succ k ih =>
    rw [Nat.succ_add, leBytes, leBytes, ih, List.cons_append, Nat.div_div_eq_div_mul, ← pow_succ']

/-- The first bytes in network order are the high ones. -/
theorem beBytes_add (k m n : ℕ) :
    beBytes (k + m) n = beBytes m (n / 256 ^ k) ++ beBytes k n := by
  rw [beBytes, leBytes_add, List.reverse_append, beBytes, beBytes]

/-! ### Reading from the front of a buffer -/

/-- Split off `k` raw bytes; `none` is a read past the end of the buffer. -/
def takeBytes (k : ℕ) (buf : List UInt8) : Option (List UInt8 × List UInt8) :=
  if k ≤ buf.length then some (buf.take k, buf.drop k) else none

/-- Split off a `k`-byte word. -/
def takeWord (k : ℕ) (buf : List UInt8) : Option (ℕ × List UInt8) :=
  (takeBytes k buf).map fun p => (leNat p.1, p.2)

/-- The image of a `uint32_t`, a `size_t` and a `uint8_t` in memory. -/
def u32Bytes (n : ℕ) : List UInt8 := leBytes 4 n

def u64Bytes (x : UInt64) : List UInt8 := leBytes 8 x.toNat

def takeU64 (buf : List UInt8) : Option (UInt64 × List UInt8) :=
  (takeWord 8 buf).map fun p => (UInt64.ofNat p.1, p.2)

def takeU8 : List UInt8 → Option (UInt8 × List UInt8)
  | [] => none
  | b :: bs => some (b, bs)

@[simp] theorem u32Bytes_length (n : ℕ) : (u32Bytes n).length = 4 := leBytes_length 4 n

@[simp] theorem u64Bytes_length (x : UInt64) : (u64Bytes x).length = 8 := leBytes_length 8 _

theorem takeBytes_append {k : ℕ} {front rest : List UInt8} (h : front.length = k) :
    takeBytes k (front ++ rest) = some (front, rest) := by
  subst h
  simp [takeBytes]

theorem takeWord_append (k n : ℕ) (rest : List UInt8) :
    takeWord k (leBytes k n ++ rest) = some (n % 256 ^ k, rest) := by
  rw [takeWord, takeBytes_append (leBytes_length k n), Option.map_some, leNat_leBytes]

@[simp] theorem takeU64_append (x : UInt64) (rest : List UInt8) :
    takeU64 (u64Bytes x ++ rest) = some (x, rest) := by
  have hx : x.toNat < 256 ^ 8 := x.toNat_lt
  rw [takeU64, u64Bytes, takeWord_append, Nat.mod_eq_of_lt hx, Option.map_some,
    UInt64.ofNat_toNat]

@[simp] theorem takeU8_cons (b : UInt8) (rest : List UInt8) :
    takeU8 (b :: rest) = some (b, rest) := rfl

end IoTDrive.Lib
