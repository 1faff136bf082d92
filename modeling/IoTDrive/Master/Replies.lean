import IoTDrive.Master.Entries

/-! The reply stream. However the requests interleave, and whatever answers arrive, the
reply entry, the request entry and the ticket entry of a request that has not been
replied are in place when its ticket completes, and the completion writes one whole
reply. The environment is arbitrary: any datagram may wake up any proxy at any time.
The only condition is that a new request does not get the UID of a pending one. -/

namespace IoTDrive.Master

open Lib Message Stripe MinionProxy

namespace MasterState
variable {M : MinionManager} {s s' : MasterState} {j : ℕ} {job job' : Job}

/-! ### New requests -/

/-- The UID of a new request is not that of a pending one. -/
def PendingDistinct (s : MasterState) : Action → Prop
  | .getTaskArgs _ uid => ∀ job ∈ s.jobs, job.uid = uid → job.completed = true
  | _ => True

instance (s : MasterState) (a : Action) : Decidable (PendingDistinct s a) :=
  match a with
  | .getTaskArgs _ uid =>
    inferInstanceAs (Decidable (∀ job ∈ s.jobs, job.uid = uid → job.completed = true))
  | .advance .. => inferInstanceAs (Decidable True)
  | .wakeUp .. => inferInstanceAs (Decidable True)

/-- The requests after `GetTaskArgs`. -/
theorem jobs_getTaskArgs {req : Request} {uid : UID} {k : ℕ} {job : Job} :
    (s.getTaskArgs req uid).jobs[k]? = some job ↔
      s.jobs[k]? = some job ∨
        k = s.jobs.length ∧ (⟨uid, req, .received, none, [], 0⟩ : Job) = job :=
  getElem?_append_singleton

theorem getTaskArgs_stream {order : List ℕ} (h : s.Stream order) {req : Request} {uid : UID} :
    (s.getTaskArgs req uid).Stream order := by
  obtain ⟨hn, hm, ho⟩ := h
  refine ⟨hn, fun k => ?_, ?_⟩
  · rw [hm k]
    constructor
    · rintro ⟨job, hk, hc⟩
      exact ⟨job, jobs_getTaskArgs.mpr (.inl hk), hc⟩
    · rintro ⟨job, hk, hc⟩
      rcases jobs_getTaskArgs.mp hk with hk | ⟨-, rfl⟩
      · exact ⟨job, hk, hc⟩
      · simp [Job.completed] at hc
  · refine ho.trans (List.flatMap_congr fun k hk => ?_)
    obtain ⟨job, hj, -⟩ := (hm k).mp hk
    simp only [replyAt, hj, jobs_getTaskArgs.mpr (.inl hj)]

theorem getTaskArgs_inv (hs : s.Inv) {req : Request} {uid : UID}
    (hu : ∀ job ∈ s.jobs, job.uid = uid → job.completed = true) :
    (s.getTaskArgs req uid).Inv := by
  have hnone : s.responses uid = none := by
    by_contra h
    obtain ⟨k, job, hk, hc, hku⟩ := hs.owned uid (.inl h)
    rw [hu job (List.mem_of_getElem? hk) hku] at hc
    cases hc
  constructor
  case sound =>
    intro k job h
    rcases jobs_getTaskArgs.mp h with h | ⟨-, rfl⟩
    · exact hs.sound k job h
    · exact ⟨fun _ => rfl, by simp, by simp, by simp, by simp⟩
  case waiting =>
    intro k job h hc
    rcases jobs_getTaskArgs.mp h with h | ⟨-, rfl⟩
    · have hw := hs.waiting k job h hc
      have hne : job.uid ≠ uid := fun he => by
        rw [hu job (List.mem_of_getElem? h) he] at hc
        cases hc
      exact ⟨by simp only [getTaskArgs, Function.update_of_ne hne]; exact hw.response,
        hw.request, hw.ticket⟩
    · exact ⟨by simp [getTaskArgs, hnone], by simp, by simp⟩
  case distinct =>
    intro k l job job' hk hl hck hcl he
    have hold : ∀ {i : ℕ} {job₁ : Job}, s.jobs[i]? = some job₁ → job₁.completed = false →
        job₁.uid ≠ uid := fun h hc he => by
      rw [hu _ (List.mem_of_getElem? h) he] at hc
      cases hc
    rcases jobs_getTaskArgs.mp hk with hk | ⟨rfl, rfl⟩ <;> rcases jobs_getTaskArgs.mp hl with hl | ⟨rfl, rfl⟩
    · exact hs.distinct k l job job' hk hl hck hcl he
    · exact absurd he (hold hk hck)
    · exact absurd he.symm (hold hl hcl)
    · rfl
  case owned =>
    intro u h
    by_cases hne : u = uid
    · subst hne
      exact ⟨s.jobs.length, _, jobs_getTaskArgs.mpr (.inr ⟨rfl, rfl⟩), rfl, rfl⟩
    · simp only [getTaskArgs, Function.update_of_ne hne] at h
      obtain ⟨k, job, hk, hc, hku⟩ := hs.owned u h
      exact ⟨k, job, jobs_getTaskArgs.mpr (.inl hk), hc, hku⟩
  case callbacks =>
    intro m u cb h
    obtain ⟨job, hk, ha⟩ := hs.callbacks m u cb h
    exact ⟨job, jobs_getTaskArgs.mpr (.inl hk), ha⟩
  case stream =>
    obtain ⟨order, ho⟩ := hs.stream
    exact ⟨order, getTaskArgs_stream ho⟩

/-! ### Whole runs -/

theorem step_inv {a : Action} (hg : PendingDistinct s a) (h : step M s a = some s') (hs : s.Inv) :
    s'.Inv := by
  cases a with
  | getTaskArgs req uid =>
    obtain rfl := Option.some.inj h
    exact getTaskArgs_inv hs hg
  | advance j sendOk beyond =>
    obtain ⟨⟨s₁, pk⟩, hadv, rfl⟩ := Option.map_eq_some_iff.mp h
    obtain ⟨job, job', hj, hcases⟩ := advance_cases hadv
    exact (hcases.quiet hj hs).inv hj hs
  | wakeUp m stack d =>
    rcases wakeUp_cases h with rfl | ⟨msg, cb, -, hcb, he⟩
    · exact hs
    · obtain ⟨job, t, hj, -, ⟨-, hq⟩ | ⟨-, hq⟩⟩ := onMirrorResponse_cases hs hcb msg he
      · exact hq.inv hj hs
      · exact hq.inv hj hs

/-- A step that completes a ticket is an answer, and completes no other. -/
theorem step_completes {a : Action} (h : step M s a = some s') (hs : s.Inv)
    (hj : s.jobs[j]? = some job) (hj' : s'.jobs[j]? = some job') (hc : job.completed = false)
    (hc' : job'.completed = true) : Completes s s' j job job' := by
  have quiet : ∀ {k : ℕ} {job₁ job₂ : Job}, s.jobs[k]? = some job₁ → Quiet s s' k job₁ job₂ →
      Completes s s' j job job' := by
    intro k job₁ job₂ hk hq
    rw [hq.getElem? hk] at hj'
    split_ifs at hj' with he
    · subst he
      rw [← Option.some.inj hj', hq.completed, Option.some.inj (hk.symm.trans hj), hc] at hc'
      cases hc'
    · rw [Option.some.inj (hj.symm.trans hj'), hc'] at hc
      cases hc
  cases a with
  | getTaskArgs req uid =>
    obtain rfl := Option.some.inj h
    rcases jobs_getTaskArgs.mp hj' with hj' | ⟨-, rfl⟩
    · rw [Option.some.inj (hj.symm.trans hj'), hc'] at hc
      cases hc
    · simp [Job.completed] at hc'
  | advance k sendOk beyond =>
    obtain ⟨⟨s₁, pk⟩, hadv, rfl⟩ := Option.map_eq_some_iff.mp h
    obtain ⟨job₁, job₂, hk, hcases⟩ := advance_cases hadv
    exact quiet hk (hcases.quiet hk hs)
  | wakeUp m stack d =>
    rcases wakeUp_cases h with rfl | ⟨msg, cb, -, hcb, he⟩
    · rw [Option.some.inj (hj.symm.trans hj'), hc'] at hc
      cases hc
    · obtain ⟨job₁, t, hk, -, ⟨-, hq⟩ | ⟨-, hq⟩⟩ := onMirrorResponse_cases hs hcb msg he
      · exact quiet hk hq
      · have hj'' := hj'
        rw [hq.getElem? hk] at hj''
        split_ifs at hj'' with hjk
        · subst hjk
          obtain rfl := Option.some.inj (hk.symm.trans hj)
          obtain rfl := Option.some.inj hj''
          exact hq
        · rw [Option.some.inj (hj.symm.trans hj''), hc'] at hc
          cases hc

end MasterState

/-- The reply of a request: a header of sixteen bytes with its handle, error 0 exactly after success, and
behind it as many bytes as a successful read has asked for. -/
def Job.Framed (job : Job) : Prop :=
  ∃ t payload, job.ticket = some t ∧
    job.reply = (NbdReply.header ⟨if t.outcome.result then 0 else eio, job.req.handle⟩).map some ++
      payload ∧
    job.reply.length = 16 + payload.length ∧
    payload.length =
      if t.outcome.result = true ∧ job.req.op = .read then job.req.length.toNat else 0

theorem Job.Sound.framed {job : Job} (hs : job.Sound) (hc : job.completed = true) :
    job.Framed := by
  obtain ⟨t, ht, -⟩ := Option.any_eq_true _ _ |>.mp hc
  obtain ⟨-, hop, htot⟩ := hs.ticket_eq t ht
  refine ⟨t, t.outcome.payload, ht, by simp [Job.reply, ht, NbdReply.bytes], ?_, ?_⟩
  · simp [Job.reply, ht, NbdReply.bytes, NbdReply.header, job.req.handle_length]
    omega
  rw [← hop, ← htot]
  cases hall : t.segments.all (SegmentState.isSegmentSuccessful t.op) <;> cases hread : t.op <;>
    simp [TaskResult.payload, Ticket.outcome, hread, hread ▸ hall]

namespace MasterState

/-- In every execution in which the UIDs of pending requests differ, whatever answers
come: the NBD socket has seen the replies of the completed requests, each once, and
nothing else; every reply is framed as its request asks; and a ticket that completes
finds its listener and its entries, writes its reply and touches no other request. -/
theorem reply_stream (M : MinionManager) (as : List Action) (s : MasterState)
    (h : run (step M) PendingDistinct as init = some s) :
    (∃ order, s.Stream order) ∧
      (∀ (j : ℕ) (job : Job), s.jobs[j]? = some job → job.completed = true → job.Framed) ∧
      ∀ a s', PendingDistinct s a → step M s a = some s' →
        ∀ (j : ℕ) (job job' : Job), s.jobs[j]? = some job → s'.jobs[j]? = some job' →
          job.completed = false → job'.completed = true → Completes s s' j job job' := by
  have hs : s.Inv := run_invariant (fun _ _ _ hg hst hi => step_inv hg hst hi) h init_inv
  exact ⟨hs.stream, fun j job hj hc => (hs.sound j job hj).framed hc,
    fun a s' _ hst j job job' hj hj' hc hc' => step_completes hst hs hj hj' hc hc'⟩

/-- Two bytes inside the first chunk of a small drive. -/
def twoByteWrite : Request := .smallWrite 7 1 2 [5, 6] rfl

/-- A write and a read at the same time; the read is answered by its primary before the
second send and by its backup after the reply. -/
def overlappingRequests : List Action :=
  let answer := fun m : AMessage => (m.datagram fun _ => 0).getD []
  [.getTaskArgs twoByteWrite 1,
    .getTaskArgs (.smallRead 8 8 1) 2,
    .advance 0 true fun _ => 0, .advance 1 true fun _ => 0, .advance 1 true fun _ => 0,
    .advance 0 true fun _ => 0, .advance 0 true fun _ => 0, .advance 1 true fun _ => 0,
    .advance 0 true fun _ => 0, .advance 1 true fun _ => 0, .advance 0 true fun _ => 0,
    .wakeUp 1 (fun _ => 0) (answer (.writeReceive 1 1)),
    .wakeUp 2 (fun _ => 0) (answer (.readReceive 2 1 1 (some [9]))),
    .advance 1 true fun _ => 0,
    .wakeUp 0 (fun _ => 0) (answer (.writeReceive 1 1)),
    .wakeUp 0 (fun _ => 0) (answer (.readReceive 2 1 1 (some [9])))]

theorem reply_stream_overlapping :
    ∃ s, run (step MinionManager.smallDrive) PendingDistinct overlappingRequests init = some s ∧
      s.nbdOut.length = 33 ∧ ∃ order, s.Stream order := by
  have hrun : (run (step MinionManager.smallDrive) PendingDistinct overlappingRequests init).map
      (fun s => s.nbdOut.length) = some 33 := by decide +kernel
  obtain ⟨s, hs, hlen⟩ := Option.map_eq_some_iff.mp hrun
  exact ⟨s, hs, hlen, (reply_stream MinionManager.smallDrive overlappingRequests s hs).1⟩

end MasterState

end IoTDrive.Master
