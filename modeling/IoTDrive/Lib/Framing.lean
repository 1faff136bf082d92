import Mathlib.Data.List.Infix
import Mathlib.Data.Nat.Notation
import Mathlib.Tactic.TypeStar

/-! Frames in a byte stream. A decoder takes one frame after another off what has arrived;
how a frame is read may depend on the frames before it. A frame that is recognised in
front of anything, and none of whose proper parts is taken for one, is found however the
stream is cut: what a decoder takes off a part of the stream are the first frames
of it, and what it keeps is less than the next one. -/

namespace IoTDrive.Lib

/-- What is at the front of a buffer: too little, nothing that the decoder knows, or a frame. -/
inductive Decoded (α β : Type*) where
  | more
  | bad
  | frame (a : α) (rest : List β)

/-- How a decoder in state `s` reads, and its state behind a frame. -/
structure Decoder (σ α β : Type*) where
  decode : σ → List β → Decoded α β
  next : σ → α → σ
  decode_nil : ∀ s, decode s [] = .more

namespace Decoder
variable {σ α β : Type*} (D : Decoder σ α β)

/-- Take frames off the buffer, as many as `n` if there are; a frame has a byte at least. -/
def drain : ℕ → σ → List β → Option (σ × List α × List β)
  | 0, s, buffer => some (s, [], buffer)
  | n + 1, s, buffer =>
    match D.decode s buffer with
    | .more => some (s, [], buffer)
    | .bad => none
    | .frame a rest => (drain n (D.next s a) rest).map fun r => (r.1, a :: r.2.1, r.2.2)

/-- The bytes `w` are the frame of `a` for a decoder in state `s`. -/
structure Frame (s : σ) (a : α) (w : List β) : Prop where
  whole : ∀ rest, D.decode s (w ++ rest) = .frame a rest
  part : ∀ p, p <+: w → p.length < w.length → D.decode s p = .more

/-- Frames one behind the other, from state `s` on. -/
def Frames : σ → List (α × List β) → Prop
  | _, [] => True
  | s, f :: fs => D.Frame s f.1 f.2 ∧ Frames (D.next s f.1) fs

/-- The bytes of frames one behind the other. -/
def wire (fs : List (α × List β)) : List β := fs.flatMap Prod.snd

variable {D} {s : σ} {a : α} {w buffer : List β} {fs : List (α × List β)}

theorem Frame.length_pos (h : D.Frame s a w) : 0 < w.length := by
  rcases List.eq_nil_or_concat w with rfl | ⟨w, b, rfl⟩
  · have := h.whole []
    rw [List.append_nil, D.decode_nil] at this
    cases this
  · simp

theorem Frames.drain (h : D.Frames s fs) (hb : buffer <+: wire fs) {n : ℕ}
    (hn : buffer.length ≤ n) :
    ∃ done ahead rest, fs = done ++ ahead ∧ buffer = wire done ++ rest ∧
      D.drain n s buffer = some (done.foldl (fun s f => D.next s f.1) s, done.map Prod.fst, rest) ∧
      ∀ f ∈ ahead.head?, rest.length < f.2.length := by
  induction fs generalizing s buffer n with
  | nil =>
    obtain rfl : buffer = [] := List.prefix_nil.mp hb
    refine ⟨[], [], [], rfl, rfl, ?_, by simp⟩
    cases n with
    | zero => rfl
    | succ n => simp [Decoder.drain, D.decode_nil]
  | cons f fs ih =>
    obtain ⟨hf, hfs⟩ := h
    have hcons : wire (f :: fs) = f.2 ++ wire fs := List.flatMap_cons
    rw [hcons] at hb
    rcases Nat.lt_or_ge buffer.length f.2.length with hlt | hge
    · -- part of the first frame
      have hp : buffer <+: f.2 :=
        List.prefix_of_prefix_length_le hb (List.prefix_append _ _) hlt.le
      refine ⟨[], f :: fs, buffer, rfl, rfl, ?_, by simpa using hlt⟩
      cases n with
      | zero => rfl
      | succ n => simp [Decoder.drain, hf.part buffer hp hlt]
    · obtain ⟨tail, rfl⟩ : f.2 <+: buffer :=
        List.prefix_of_prefix_length_le (List.prefix_append _ _) hb hge
      have hpos := hf.length_pos
      rw [List.length_append] at hn
      obtain ⟨n, rfl⟩ : ∃ m, n = m + 1 := ⟨n - 1, by omega⟩
      obtain ⟨done, ahead, rest, rfl, rfl, hd, hahead⟩ :=
        ih hfs ((List.prefix_append_right_inj _).mp hb) (n := n) (by omega)
      refine ⟨f :: done, ahead, rest, rfl, by simp [wire], ?_, hahead⟩
      simp [Decoder.drain, hf.whole, hd]

end Decoder

end IoTDrive.Lib
