import IoTDrive.Lib.Framing
import IoTDrive.Master.Replies
import IoTDrive.Nbd.Sync

/-! Both directions of the NBD socket. A client sends requests, `GetTaskArgs` takes them in
order, the master serves them at the same time and replies in the order in which they
complete. A reply names its request by the handle alone, and only the request that the
client finds under the handle tells how much data follows; so one reply of the wrong
length, or under a handle that is not pending, would put the client out of sync for
good. The client may get the bytes in any portions. -/

namespace IoTDrive.Nbd

open Lib Message Master Stripe

/-! ### Replies as a client reads them -/

/-- `nbd_reply` with the data behind it. -/
structure ClientReply where
  handle : List UInt8
  error : ℕ
  data : List (Option UInt8)
  deriving DecidableEq, Repr

def ClientReply.bytes (c : ClientReply) : List (Option UInt8) :=
  (NbdReply.header ⟨c.error, c.handle⟩).map some ++ c.data

/-- The data behind a reply to the request: what a read has asked for, unless it failed. -/
def ClientRequest.dataSize (r : ClientRequest) (error : ℕ) : ℕ :=
  if error = 0 ∧ r.cmd = .read then r.length.toNat else 0

/-- `sizeof(nbd_reply)`. -/
def replySize : ℕ := 16

/-- `NBD_REPLY_MAGIC`. -/
def replyMagic : ℕ := 0x67446698

/-- A client reads a header, looks for the request with its handle, and reads the data that
this request asks for. -/
def readReply (pending : List ClientRequest) (buffer : List (Option UInt8)) :
    Decoded ClientReply (Option UInt8) :=
  if buffer.length < replySize then .more
  else
    let header := (buffer.take replySize).filterMap id
    let error := leNat ((header.drop 4).take 4).reverse
    match pending.find? (fun r => r.handle == header.drop 8) with
    | none => .bad
    | some r =>
      if header.take 4 ≠ beBytes 4 replyMagic then .bad
      else if buffer.length < replySize + r.dataSize error then .more
      else .frame ⟨header.drop 8, error, (buffer.drop replySize).take (r.dataSize error)⟩
        (buffer.drop (replySize + r.dataSize error))

/-- A request that has been replied is not pending any more. -/
def replyDecoder : Decoder (List ClientRequest) ClientReply (Option UInt8) where
  decode := readReply
  next pending c := pending.filter fun r => r.handle != c.handle
  decode_nil _ := rfl

/-- The reply fits a pending request. -/
def ClientReply.Answers (c : ClientReply) (r : ClientRequest) : Prop :=
  c.handle = r.handle ∧ c.error < 2 ^ 32 ∧ c.data.length = r.dataSize c.error

variable {pending : List ClientRequest} {c : ClientReply} {r : ClientRequest}

theorem find?_handle (hn : (pending.map ClientRequest.handle).Nodup) (hr : r ∈ pending) :
    pending.find? (fun r' => r'.handle == r.handle) = some r := by
  induction pending with
  | nil => simp at hr
  | cons r' pending ih =>
    obtain ⟨hnot, hn⟩ := List.nodup_cons.mp hn
    rcases List.mem_cons.mp hr with rfl | hr
    · simp
    · have hne : r'.handle ≠ r.handle := fun he => hnot (he ▸ List.mem_map_of_mem hr)
      simp [hne, ih hn hr]

/-- What a client makes of a whole header and what has arrived behind it. -/
theorem readReply_header (hn : (pending.map ClientRequest.handle).Nodup) (hr : r ∈ pending)
    (h : c.Answers r) (d : List (Option UInt8)) :
    readReply pending ((NbdReply.header ⟨c.error, c.handle⟩).map some ++ d) =
      if d.length < r.dataSize c.error then .more
      else .frame ⟨c.handle, c.error, d.take (r.dataSize c.error)⟩
        (d.drop (r.dataSize c.error)) := by
  obtain ⟨hh, he, -⟩ := h
  have hlen : (NbdReply.header ⟨c.error, c.handle⟩).length = replySize := by
    simp [NbdReply.header, replySize, hh, r.handle_length]
  have hmap : ((NbdReply.header ⟨c.error, c.handle⟩).map some).length = replySize := by
    rw [List.length_map, hlen]
  have herror : ((NbdReply.header ⟨c.error, c.handle⟩).drop 4).take 4 = beBytes 4 c.error :=
    ClientRequest.take_drop_append (beBytes_length _ _) (beBytes_length _ _)
  have hhandle : (NbdReply.header ⟨c.error, c.handle⟩).drop 8 = c.handle := by
    rw [NbdReply.header, ← List.append_assoc, List.drop_left' (by simp)]
  have hfind : pending.find? (fun r' => r'.handle == c.handle) = some r := by
    rw [hh]
    exact find?_handle hn hr
  have hmagic : (NbdReply.header ⟨c.error, c.handle⟩).take 4 = beBytes 4 replyMagic :=
    List.take_left' (beBytes_length _ _)
  have hback : leNat (beBytes 4 c.error).reverse = c.error := by
    rw [beBytes, List.reverse_reverse, leNat_leBytes_of_lt (by simpa using he)]
  have htotal : ((NbdReply.header ⟨c.error, c.handle⟩).map some ++ d).length =
      replySize + d.length := by rw [List.length_append, hmap]
  rw [readReply, htotal, if_neg (by omega), List.take_left' hmap, List.filterMap_map,
    Function.id_comp, List.filterMap_some]
  simp only [herror, hhandle, hmagic, hback, hfind, ne_eq, not_true_eq_false, if_false,
    Nat.add_lt_add_iff_left, List.drop_left' hmap, ← List.drop_drop]

theorem ClientReply.frame (hn : (pending.map ClientRequest.handle).Nodup) (hr : r ∈ pending)
    (h : c.Answers r) : replyDecoder.Frame pending c c.bytes := by
  constructor
  case whole =>
    intro rest
    change readReply pending (c.bytes ++ rest) = _
    rw [bytes, List.append_assoc, readReply_header hn hr h, if_neg (by simp [h.2.2]),
      List.take_left' h.2.2, List.drop_left' h.2.2]
  case part =>
    intro p hp hlt
    change readReply pending p = _
    have hlen : ((NbdReply.header ⟨c.error, c.handle⟩).map some).length = replySize := by
      simp [NbdReply.header, replySize, h.1, r.handle_length]
    rcases Nat.lt_or_ge p.length replySize with hshort | hlong
    · rw [readReply, if_pos hshort]
    · obtain ⟨d, rfl⟩ : (NbdReply.header ⟨c.error, c.handle⟩).map some <+: p :=
        List.prefix_of_prefix_length_le (List.prefix_append _ _) hp (by rw [hlen]; exact hlong)
      rw [bytes, List.length_append, List.length_append, h.2.2] at hlt
      rw [readReply_header hn hr h, if_pos (by omega)]

/-- Replies to different pending requests, in any order. -/
theorem frames_of_answers {cs : List ClientReply}
    (hn : (pending.map ClientRequest.handle).Nodup)
    (hcs : (cs.map ClientReply.handle).Nodup) (h : ∀ c ∈ cs, ∃ r ∈ pending, c.Answers r) :
    replyDecoder.Frames pending (cs.map fun c => (c, c.bytes)) := by
  induction cs generalizing pending with
  | nil => trivial
  | cons c cs ih =>
    obtain ⟨hnot, hcs⟩ := List.nodup_cons.mp hcs
    obtain ⟨r, hr, hc⟩ := h c (by simp)
    refine ⟨c.frame hn hr hc, ih ?_ hcs ?_⟩
    · exact hn.sublist (List.filter_sublist.map _)
    · intro c' hc'
      obtain ⟨r', hr', ha⟩ := h c' (List.mem_cons_of_mem _ hc')
      refine ⟨r', List.mem_filter.mpr ⟨hr', ?_⟩, ha⟩
      rw [bne_iff_ne, ← ha.1]
      exact fun he => hnot (he ▸ List.mem_map_of_mem hc')

end IoTDrive.Nbd
