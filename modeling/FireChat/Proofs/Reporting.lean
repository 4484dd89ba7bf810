import FireChat.Proofs.Mirroring

/-! What a settled call has stored and reported, for every choice of rejected
writes. The caller's completion is attached to the second append alone. -/

namespace FireChat

structure Delivery.State.FullySent (state : Delivery.State) (call : Nat) (upload : Upload) : Prop where
  sent : 0 < (state.log upload.request.currentUid upload.request.userUid).copies call
  received : 0 < (state.log upload.request.userUid upload.request.currentUid).copies call
  recentSent : (upload.status .recentSent).landed = true
  recentReceived : (upload.status .recentReceived).landed = true

namespace Delivery

variable {registered : String → Prop} {verdict : Nat → Write → Option NSError} {events : List Event} {state : State}
  {call : Nat} {upload : Upload}

theorem clearsMessageText_iff (report : Option NSError) :
    ChatController.clearsMessageText report = true ↔ report = none := by
  cases report <;> simp [ChatController.clearsMessageText]

theorem settled_report (ran : run verdict initial events = some state) (found : state.uploads[call]? = some upload)
    (settled : upload.Settled) : upload.completions = [verdict call .received] := by
  have sound := (run_valid ran).calls call upload found
  rw [sound.reports, sound.finished settled .received]
  rfl

theorem settled_landed (ran : run verdict initial events = some state) (found : state.uploads[call]? = some upload)
    (settled : upload.Settled) (write : Write) :
    (upload.status write).landed = true ↔ verdict call write = none := by
  rw [((run_valid ran).calls call upload found).finished settled write]
  cases verdict call write <;> simp [Status.landed]

theorem settled_copies (reserved : ¬ registered recentMessages) (users : Registered registered events)
    (ran : run verdict initial events = some state) (found : state.uploads[call]? = some upload)
    (settled : upload.Settled) :
    (0 < (state.log upload.request.currentUid upload.request.userUid).copies call ↔ verdict call .sent = none) ∧
    (0 < (state.log upload.request.userUid upload.request.currentUid).copies call ↔ verdict call .received = none) := by
  obtain ⟨sent, received⟩ := log_copies_of_call reserved users ran found
  rw [sent, received, ← settled_landed ran found settled, ← settled_landed ran found settled]
  refine ⟨?_, ?_⟩
  all_goals
    split
    next landed => simp [landed]
    next missing => simp [missing]

theorem fullySent_iff (reserved : ¬ registered recentMessages) (users : Registered registered events)
    (ran : run verdict initial events = some state) (found : state.uploads[call]? = some upload)
    (settled : upload.Settled) : state.FullySent call upload ↔ ∀ write, verdict call write = none := by
  obtain ⟨sent, received⟩ := settled_copies reserved users ran found settled
  have landed := settled_landed ran found settled
  refine ⟨?_, ?_⟩
  · intro full write
    cases write with
    | sent => exact sent.mp full.sent
    | received => exact received.mp full.received
    | recentSent => exact (landed .recentSent).mp full.recentSent
    | recentReceived => exact (landed .recentReceived).mp full.recentReceived
  · intro taken
    exact ⟨sent.mpr (taken .sent), received.mpr (taken .received), (landed .recentSent).mpr (taken .recentSent),
      (landed .recentReceived).mpr (taken .recentReceived)⟩

/-- A settled call is all-or-nothing and truthfully reported exactly when
Firestore rejected both of its appends or none of its four writes. -/
theorem report_truthful_iff (reserved : ¬ registered recentMessages) (users : Registered registered events)
    (ran : run verdict initial events = some state) (found : state.uploads[call]? = some upload)
    (settled : upload.Settled) :
    ((0 < (state.log upload.request.currentUid upload.request.userUid).copies call ↔
        0 < (state.log upload.request.userUid upload.request.currentUid).copies call) ∧
      upload.completions.length = 1 ∧
      (none ∈ upload.completions → state.FullySent call upload) ∧
      ∀ report ∈ upload.completions, ChatController.clearsMessageText report = true → state.FullySent call upload) ↔
      (verdict call .sent ≠ none ∧ verdict call .received ≠ none) ∨ ∀ write, verdict call write = none := by
  obtain ⟨sent, received⟩ := settled_copies reserved users ran found settled
  have full := fullySent_iff reserved users ran found settled
  have reported := settled_report ran found settled
  rw [sent, received, full, reported]
  refine ⟨?_, ?_⟩
  · intro ⟨mirrored, _, truthful, _⟩
    by_cases taken : verdict call .received = none
    · exact Or.inr (truthful (by simp [taken]))
    · exact Or.inl ⟨fun first => taken (mirrored.mp first), taken⟩
  · intro outcome
    rcases outcome with ⟨first, second⟩ | taken
    · refine ⟨by simp [first, second], rfl, ?_, ?_⟩
      · intro silent
        exact absurd (List.mem_singleton.mp silent).symm second
      · intro report member clears
        rw [List.mem_singleton.mp member, clearsMessageText_iff] at clears
        exact absurd clears second
    · exact ⟨by simp [taken], rfl, fun _ => taken, fun _ _ _ => taken⟩

theorem one_send_truthful :
    ∃ state upload, run accepts initial oneSend = some state ∧ state.uploads[0]? = some upload ∧
      upload.completions.length = 1 ∧ state.FullySent 0 upload := by
  have truthful := (report_truthful_iff (by decide) oneSend_registered (rfl : run accepts initial oneSend = some _)
    (rfl : (State.uploads _)[0]? = some _) (by decide)).mpr (Or.inr fun _ => rfl)
  exact ⟨_, _, rfl, rfl, truthful.2.1, truthful.2.2.1 (List.mem_singleton_self _)⟩

def rejectsFirst : Nat → Write → Option NSError
  | 0, .sent => some ⟨"permission denied"⟩
  | _, _ => none

/-- Bob has Ann's message, Ann does not, and Ann is told that it was sent. -/
theorem first_append_error_dropped :
    ∃ state, run rejectsFirst initial oneSend = some state ∧ state.Settled ∧
      (state.log "ann" "bob").copies 0 = 0 ∧ (state.log "bob" "ann").copies 0 = 1 ∧
      state.uploads.map Upload.completions = [[none]] :=
  ⟨_, rfl, by decide, rfl, rfl, rfl⟩

end Delivery

end FireChat
