import IoTDrive.Master.State

/-! The drive the master stands for: one flat array of bytes, all zero at first, that
serves one request after another. A write stores its data and is acknowledged; a read
is answered with the bytes at its addresses. This is the abstract drive that the
striped and mirrored one is compared with.

On the real drive two bytes share a cell if they are neighbours. A byte is clean after
a list of requests if no neighbour of it was written by the last write that covers it
or after that: then both its copies are its own. -/

namespace IoTDrive.Drive

open Master Stripe

abbrev Contents := ℕ → UInt8

def Covers (req : Request) (a : ℕ) : Prop :=
  req.offset.toNat ≤ a ∧ a < req.offset.toNat + req.length.toNat

instance (req : Request) (a : ℕ) : Decidable (Covers req a) := inferInstanceAs (Decidable (_ ∧ _))

/-- What a request does to the array. -/
def apply (c : Contents) (req : Request) : Contents := fun a =>
  if req.op = .write ∧ Covers req a then req.data.getD (a - req.offset.toNat) 0 else c a

/-- The array after some requests. -/
def contents (reqs : List Request) : Contents := reqs.foldl apply fun _ => 0

def readBytes (c : Contents) (offset n : ℕ) : List UInt8 := (List.range' offset n).map c

/-- Reading from a later address on. -/
theorem readBytes_add (c : Contents) (offset k n : ℕ) :
    readBytes c (offset + k) n = (List.range' k n).map fun i => c (offset + i) := by
  rw [readBytes, ← List.map_add_range', List.map_map]
  rfl

/-- The reply to a request: success, and the bytes a read asks for. -/
def reply (c : Contents) (req : Request) : List UInt8 :=
  NbdReply.header ⟨0, req.handle⟩ ++
    if req.op = .read then readBytes c req.offset.toNat req.length.toNat else []

/-- The replies to a list of requests, served one after another. -/
def replies : Contents → List Request → List UInt8
  | _, [] => []
  | c, req :: reqs => reply c req ++ replies (apply c req) reqs

theorem contents_append_singleton (reqs : List Request) (req : Request) :
    contents (reqs ++ [req]) = apply (contents reqs) req := by simp [contents]

theorem replies_append_singleton (c : Contents) (reqs : List Request) (req : Request) :
    replies c (reqs ++ [req]) = replies c reqs ++ reply (reqs.foldl apply c) req := by
  induction reqs generalizing c with
  | nil => simp [replies]
  | cons r reqs ih => simp [replies, ih]

theorem apply_of_not_covers {c : Contents} {req : Request} {a : ℕ}
    (h : req.op = .write → ¬ Covers req a) : apply c req a = c a :=
  if_neg fun hc => h hc.1 hc.2

theorem apply_of_covers {c : Contents} {req : Request} {a : ℕ} (hop : req.op = .write)
    (h : Covers req a) : apply c req a = req.data.getD (a - req.offset.toNat) 0 :=
  if_pos ⟨hop, h⟩

/-! ### Clean bytes -/

/-- The request covers another byte that shares a cell with `a`. -/
def TouchesNeighbour (M : MinionManager) (req : Request) (a : ℕ) : Prop :=
  ∃ b ∈ List.range' req.offset.toNat req.length.toNat, b ≠ a ∧ M.Neighbours a b

instance (M : MinionManager) (req : Request) (a : ℕ) : Decidable (TouchesNeighbour M req a) :=
  inferInstanceAs (Decidable (∃ b ∈ List.range' _ _, b ≠ a ∧ M.Neighbours a b))

def cleanAfter (M : MinionManager) (a : ℕ) (clean : Bool) (req : Request) : Bool :=
  if req.op = .write then !decide (TouchesNeighbour M req a) && (decide (Covers req a) || clean)
  else clean

def clean (M : MinionManager) (reqs : List Request) (a : ℕ) : Bool :=
  reqs.foldl (cleanAfter M a) true

/-- Every byte of the request is clean. -/
def CleanBytes (M : MinionManager) (reqs : List Request) (req : Request) : Prop :=
  ∀ a ∈ List.range' req.offset.toNat req.length.toNat, clean M reqs a = true

instance (M : MinionManager) (reqs : List Request) (req : Request) :
    Decidable (CleanBytes M reqs req) :=
  inferInstanceAs (Decidable (∀ a ∈ List.range' _ _, clean M reqs a = true))

theorem clean_append_singleton (M : MinionManager) (reqs : List Request) (req : Request) (a : ℕ) :
    clean M (reqs ++ [req]) a = cleanAfter M a (clean M reqs a) req := by simp [clean]

theorem cleanAfter_write {M : MinionManager} {a : ℕ} {b : Bool} {req : Request}
    (hop : req.op = .write) (h : cleanAfter M a b req = true) :
    ¬ TouchesNeighbour M req a ∧ (Covers req a ∨ b = true) := by
  simpa [cleanAfter, hop] using h

theorem cleanAfter_read {M : MinionManager} {a : ℕ} {b : Bool} {req : Request}
    (hop : req.op = .read) : cleanAfter M a b req = b := by simp [cleanAfter, hop]

/-- Requests inside one chunk keep its bytes clean. -/
theorem clean_of_one_chunk {M : MinionManager} {c : ℕ} {reqs : List Request}
    (h : ∀ req ∈ reqs, ∀ a, Covers req a → a / M.mbMinion = c) {a : ℕ}
    (ha : a / M.mbMinion = c) : clean M reqs a = true := by
  induction reqs using List.reverseRecOn with
  | nil => rfl
  | append_singleton reqs req ih =>
    have hprev := ih fun r hr => h r (List.mem_append_left _ hr)
    have hnot : ¬ TouchesNeighbour M req a := by
      rintro ⟨b, hb, hne, hmod, -⟩
      rw [List.mem_range'_1] at hb
      have hbc := h req (by simp) b ⟨hb.1, hb.2⟩
      apply hne
      rw [← Nat.div_add_mod b M.mbMinion, ← Nat.div_add_mod a M.mbMinion, ha, hbc, hmod]
    rw [clean_append_singleton, hprev]
    simp [cleanAfter, hnot]

end IoTDrive.Drive
