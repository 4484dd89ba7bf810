import FireChat.Library.Slots
import FireChat.Proofs.Decoding

/-! One step of a run of `uploadMessage` calls, and the invariant of whole runs
that the theorems on mirrored logs, reports and addresses read off. -/

namespace FireChat

@[simp] theorem Status.landed_issued : Status.landed .issued = false := rfl

@[simp] theorem Status.landed_unissued : Status.landed .unissued = false := rfl

namespace Upload

/-- Where a single call can be: the first append comes alone, answers agree with
the verdict, and only the second append reports to the caller. -/
structure Sound (verdict : Write → Option NSError) (upload : Upload) : Prop where
  answers : ∀ write error, upload.status write = .answered error ∨ upload.status write = .finished error →
    error = verdict write
  begun : upload.status .sent ≠ .unissued
  alone : (∀ error, upload.status .sent ≠ .finished error) → ∀ write, write ≠ .sent → upload.status write = .unissued
  issued : ∀ error, upload.status .sent = .finished error → ∀ write, upload.status write ≠ .unissued
  reports : upload.completions = (upload.status .received).report

variable {verdict : Write → Option NSError} {upload : Upload}

theorem begin_sound (request : Request) : (Upload.begin request).Sound verdict := by
  refine ⟨?_, ?_, ?_, ?_, ?_⟩
  · intro write error answered
    cases write <;> simp [Upload.begin] at answered
  · simp [Upload.begin]
  · intro _ write other
    cases write <;> simp [Upload.begin] at other ⊢
  · intro error finished
    simp [Upload.begin] at finished
  · rfl

theorem answer_status (write other : Write) (error : Option NSError) :
    (upload.answer write error).status other =
      if other = write then (if write.logs then .answered error else .finished error) else upload.status other := by
  simp only [answer, Function.update_apply]

theorem answer_landed (write other : Write) (error : Option NSError) :
    ((upload.answer write error).status other).landed =
      if other = write then error.isNone else (upload.status other).landed := by
  rw [answer_status]
  split
  · cases write.logs <;> cases error <;> rfl
  · rfl

theorem Sound.answer {write : Write} (sound : upload.Sound verdict) (held : upload.status write = .issued) :
    (upload.answer write (verdict write)).Sound verdict := by
  have same_or_issued : ∀ other, (upload.answer write (verdict write)).status other = upload.status other ∨
      other = write := by
    intro other
    rw [answer_status]
    split <;> simp_all
  have later : write ≠ .sent → ∃ error, upload.status .sent = .finished error := by
    intro different
    by_contra unfinished
    have waiting := sound.alone (fun error finished => unfinished ⟨error, finished⟩) write different
    simp [held] at waiting
  refine ⟨?_, ?_, ?_, ?_, ?_⟩
  · intro other error answered
    rw [answer_status] at answered
    split at answered
    next same =>
      subst same
      cases logged : other.logs
      all_goals
        simp only [logged, Bool.false_eq_true, if_true, if_false, reduceCtorEq, false_or, or_false,
          Status.answered.injEq, Status.finished.injEq] at answered
        exact answered.symm
    next => exact sound.answers other error answered
  · rw [answer_status]
    split
    · cases write.logs <;> simp
    · exact sound.begun
  · intro unfinished other different
    by_cases same : write = .sent
    · subst same
      rw [answer_status, if_neg different]
      exact sound.alone (by simp [held]) other different
    · obtain ⟨error, finished⟩ := later same
      apply absurd finished
      simpa only [answer_status, if_neg (Ne.symm same)] using unfinished error
  · intro error finished other
    rw [answer_status] at finished ⊢
    split at finished
    next same => subst same; simp [Write.logs] at finished
    next =>
      split
      · cases write.logs <;> simp
      · exact sound.issued error finished other
  · have reports := sound.reports
    rw [answer_status]
    split
    next same =>
      subst same
      exact reports.trans (by rw [held]; rfl)
    next => exact reports

theorem Sound.callback {write : Write} {error : Option NSError} (sound : upload.Sound verdict)
    (held : upload.status write = .answered error) : (upload.callback write error).Sound verdict := by
  cases write with
  | recentSent | recentReceived => exact sound
  | sent =>
    refine ⟨?_, ?_, ?_, ?_, ?_⟩
    · intro other reported answered
      cases other with
      | sent =>
        simp only [Upload.callback, reduceCtorEq, false_or, Status.finished.injEq] at answered
        exact answered ▸ sound.answers .sent error (Or.inl held)
      | received | recentSent | recentReceived => simp [Upload.callback] at answered
    · simp [Upload.callback]
    · intro unfinished
      exact absurd rfl (unfinished error)
    · intro _ _ other
      cases other <;> simp [Upload.callback]
    · have waiting := sound.alone (by simp [held]) .received (by simp)
      exact sound.reports.trans (by rw [waiting]; rfl)
  | received =>
    have others : ∀ other, other ≠ .received →
        (upload.callback .received error).status other = upload.status other := by
      intro other different
      exact Function.update_of_ne different _ _
    have reported : (upload.callback .received error).status .received = .finished error := by
      simp only [Upload.callback, Function.update_self]
    refine ⟨?_, ?_, ?_, ?_, ?_⟩
    · intro other answer answered
      by_cases same : other = .received
      · subst same
        simp only [reported, reduceCtorEq, false_or, Status.finished.injEq] at answered
        exact answered ▸ sound.answers .received error (Or.inl held)
      · exact sound.answers other answer (by simpa only [others other same] using answered)
    · simpa only [others .sent (by simp)] using sound.begun
    · intro unfinished other different
      have waiting := sound.alone (by simpa only [others .sent (by simp)] using unfinished) .received (by simp)
      simp [held] at waiting
    · intro first finished other
      by_cases same : other = .received
      · simp [same, reported]
      · rw [others other same]
        exact sound.issued first (by simpa only [others .sent (by simp)] using finished) other
    · have silent := sound.reports
      rw [reported]
      simp only [held, Status.report] at silent
      simp [Upload.callback, silent, Status.report]

/-- Running a callback changes no document: it only issues writes or reports. -/
theorem Sound.callback_landed {write : Write} {error : Option NSError} (sound : upload.Sound verdict)
    (held : upload.status write = .answered error) (other : Write) :
    ((upload.callback write error).status other).landed = (upload.status other).landed := by
  cases write with
  | recentSent | recentReceived => rfl
  | sent =>
    by_cases same : other = .sent
    · subst same
      cases error <;> simp [Upload.callback, held, Status.landed]
    · have waiting := sound.alone (by simp [held]) other same
      rw [waiting]
      cases other <;> first | exact absurd rfl same | rfl
  | received =>
    simp only [Upload.callback, Function.update_apply]
    split
    next same => subst same; cases error <;> simp [held, Status.landed]
    next => rfl

theorem Sound.finished (sound : upload.Sound verdict) (settled : upload.Settled) (write : Write) :
    upload.status write = .finished (verdict write) := by
  have ended : ∀ write, upload.status write ≠ .unissued → upload.status write = .finished (verdict write) := by
    intro write begun
    have quiet := settled write
    cases status : upload.status write with
    | unissued => exact absurd status begun
    | issued | answered _ => simp [status, Status.outstanding] at quiet
    | finished error => rw [sound.answers write error (Or.inr status)]
  exact ended write (sound.issued _ (ended .sent sound.begun) write)

theorem Sound.received_landed (sound : upload.Sound verdict) (taken : verdict .sent = none)
    (landed : (upload.status .received).landed = true) : (upload.status .sent).landed = true := by
  by_cases finished : ∃ error, upload.status .sent = .finished error
  · obtain ⟨error, finished⟩ := finished
    rw [finished, sound.answers .sent error (Or.inr finished), taken]
    rfl
  · have waiting := sound.alone (fun error held => finished ⟨error, held⟩) .received (by simp)
    rw [waiting] at landed
    cases landed

def deliveries (upload : Upload) (path : Path) : Nat :=
  (if upload.request.path .sent = path ∧ (upload.status .sent).landed then 1 else 0) +
    if upload.request.path .received = path ∧ (upload.status .received).landed then 1 else 0

theorem deliveries_congr {first second : Upload} (asked : first.request = second.request)
    (landed : ∀ write, (first.status write).landed = (second.status write).landed) (path : Path) :
    first.deliveries path = second.deliveries path := by
  simp only [deliveries, asked, landed]

end Upload

def Request.Names (request : Request) : Write → DocumentId → Prop
  | .sent, id | .received, id => ∃ number, id = .auto number
  | .recentSent, id => id = .named request.userUid
  | .recentReceived, id => id = .named request.currentUid

theorem Request.store_entries {request : Request} {write : Write} {number : Nat} {document : Document}
    {collection : Collection} {entry : Sigma fun _ : DocumentId => Document}
    (member : entry ∈ (request.store write number document collection).entries) :
    entry ∈ collection.entries ∨ entry.2 = document ∧ request.Names write entry.1 := by
  cases write
  all_goals
    rcases Collection.mem_entries_insert member with rfl | old
    · exact Or.inr ⟨rfl, by simp [Request.Names]⟩
    · exact Or.inl old

namespace Delivery

variable {verdict : Nat → Write → Option NSError}

inductive Step (verdict : Nat → Write → Option NSError) (state : State) : Event → State → Prop where
  | ignored {message user now} : Step verdict state (.uploadMessage none message user now) state
  | begun {currentUid message user now} : Step verdict state (.uploadMessage (some currentUid) message user now)
      { state with uploads := state.uploads ++ [.begin ⟨message, currentUid, user.uid, now⟩] }
  | rejected {call write upload error} (found : state.uploads[call]? = some upload)
      (held : upload.status write = .issued) (refused : verdict call write = some error) :
      Step verdict state (.answer call write)
        ⟨state.messages, state.uploads.set call (upload.answer write (verdict call write)), state.nextId + 1⟩
  | accepted {call write upload} (found : state.uploads[call]? = some upload)
      (held : upload.status write = .issued) (taken : verdict call write = none) :
      Step verdict state (.answer call write)
        ⟨state.accept call upload.request write, state.uploads.set call (upload.answer write (verdict call write)),
          state.nextId + 1⟩
  | called {call write upload error} (found : state.uploads[call]? = some upload)
      (held : upload.status write = .answered error) :
      Step verdict state (.callback call write)
        { state with uploads := state.uploads.set call (upload.callback write error) }

theorem Step.of_step {state next : State} {event : Event} (stepped : step verdict state event = some next) :
    Step verdict state event next := by
  cases event with
  | uploadMessage currentUser message user now =>
    cases currentUser with
    | none => cases stepped; exact .ignored
    | some currentUid => cases stepped; exact .begun
  | answer call write =>
    obtain ⟨upload, found, stepped⟩ := Option.bind_eq_some_iff.mp stepped
    split at stepped
    next held =>
      cases stepped
      cases answer : verdict call write with
      | none =>
        have accepted := Step.accepted found held answer
        simpa only [answer, if_true] using accepted
      | some error =>
        have rejected := Step.rejected found held answer
        simpa only [answer, reduceCtorEq, if_false] using rejected
    next => cases stepped
  | callback call write =>
    obtain ⟨upload, found, stepped⟩ := Option.bind_eq_some_iff.mp stepped
    cases held : upload.status write with
    | answered error =>
      simp only [held] at stepped
      cases stepped
      exact .called found held
    | unissued | issued | finished _ => simp [held] at stepped

theorem answer_request (upload : Upload) (write : Write) (error : Option NSError) :
    (upload.answer write error).request = upload.request := rfl

theorem callback_request (upload : Upload) (write : Write) (error : Option NSError) :
    (upload.callback write error).request = upload.request := by
  cases write <;> rfl

theorem Step.requests {state next : State} {event : Event} (stepped : Step verdict state event next) :
    next.requests = state.requests ++ event.requests := by
  cases stepped with
  | ignored => simp [Event.requests]
  | begun => simp [State.requests, Event.requests, Upload.begin]
  | rejected found _ _ | accepted found _ _ => exact (Slots.map_set found Upload.request (answer_request ..)).trans (List.append_nil _).symm
  | called found _ => exact (Slots.map_set found Upload.request (callback_request ..)).trans (List.append_nil _).symm

/-- The requests of a run are those of its calls, numbered in the order they start. -/
theorem run_requests {events : List Event} {state : State} (ran : run verdict initial events = some state) :
    state.requests = events.flatMap Event.requests := by
  have extended : ∀ past state event next, State.requests state = List.flatMap Event.requests past → True →
      step verdict state event = some next → next.requests = (past ++ [event]).flatMap Event.requests := by
    intro past state event next held _ stepped
    rw [(Step.of_step stepped).requests, held]
    simp
  exact Transition.run_history extended rfl (fun _ _ => trivial) ran

theorem found_request {state : State} {call : Nat} {upload : Upload} (found : state.uploads[call]? = some upload) :
    state.requests[call]? = some upload.request := by
  simp [State.requests, found]

/-- A document's `origin` is the call that stored it, with one of its own writes. -/
structure Origin (state : State) (path : Path) (entry : Sigma fun _ : DocumentId => Document)
    (upload : Upload) (write : Write) : Prop where
  found : state.uploads[entry.2.origin]? = some upload
  landed : (upload.status write).landed = true
  path : upload.request.path write = path
  data : entry.2.data = upload.request.data
  names : upload.request.Names write entry.1

structure Valid (verdict : Nat → Write → Option NSError) (state : State) : Prop where
  calls : ∀ (call : Nat) (upload : Upload), state.uploads[call]? = some upload → upload.Sound (verdict call)
  fresh : ∀ (path : Path) (number : Nat), DocumentId.auto number ∈ state.messages path → number < state.nextId
  copies : ∀ path : Path, path.name ≠ recentMessages → ∀ call : Nat,
    (state.messages path).copies call = state.uploads[call]?.elim 0 (·.deliveries path)
  origin : ∀ path, ∀ entry ∈ (state.messages path).entries, ∃ upload write, Origin state path entry upload write

theorem initial_valid : Valid verdict initial := by
  refine ⟨?_, ?_, ?_, ?_⟩
  · intro call upload found
    simp [initial] at found
  · intro path number present
    exact absurd present (AList.notMem_empty _)
  · intro path _ call
    rfl
  · intro path entry member
    simp [initial] at member

private theorem set_calls {state : State} (valid : Valid verdict state) {call : Nat} {upload updated : Upload}
    (found : state.uploads[call]? = some upload) (sound : updated.Sound (verdict call)) (other : Nat) (current : Upload)
    (held : (state.uploads.set call updated)[other]? = some current) : current.Sound (verdict other) := by
  rw [Slots.getElem?_set found] at held
  split at held
  next same => subst same; cases held; exact sound
  next => exact valid.calls other current held

private theorem Origin.set {state : State} {path : Path} {entry : Sigma fun _ : DocumentId => Document}
    {call : Nat} {upload updated : Upload} (found : state.uploads[call]? = some upload)
    (asked : updated.request = upload.request)
    (keeps : ∀ write, (upload.status write).landed = true → (updated.status write).landed = true)
    (messages : Messages) (nextId : Nat)
    (known : ∃ upload write, Origin state path entry upload write) :
    ∃ upload write, Origin ⟨messages, state.uploads.set call updated, nextId⟩ path entry upload write := by
  obtain ⟨writer, write, origin⟩ := known
  by_cases same : call = entry.2.origin
  · have equal : writer = upload := Option.some.inj (origin.found.symm.trans (same ▸ found))
    subst writer
    refine ⟨updated, write, ?_, keeps write origin.landed, ?_, ?_, ?_⟩
    · rw [Slots.getElem?_set found, if_pos same]
    · rw [asked]; exact origin.path
    · rw [asked]; exact origin.data
    · rw [asked]; exact origin.names
  · refine ⟨writer, write, ?_, origin.landed, origin.path, origin.data, origin.names⟩
    rw [Slots.getElem?_set found, if_neg same]
    exact origin.found

private theorem Valid.unstored {state : State} (valid : Valid verdict state) {call : Nat} {upload updated : Upload}
    (found : state.uploads[call]? = some upload) (sound : updated.Sound (verdict call))
    (asked : updated.request = upload.request)
    (landed : ∀ write, (updated.status write).landed = (upload.status write).landed) {nextId : Nat}
    (later : state.nextId ≤ nextId) :
    Valid verdict ⟨state.messages, state.uploads.set call updated, nextId⟩ := by
  refine ⟨?_, ?_, ?_, ?_⟩
  · exact set_calls valid found sound
  · intro path number present
    exact Nat.lt_of_lt_of_le (valid.fresh path number present) later
  · intro path log other
    rw [valid.copies path log other, Slots.getElem?_set found]
    split
    next same =>
      subst same
      rw [found]
      exact Upload.deliveries_congr asked.symm (fun write => (landed write).symm) path
    next => rfl
  · intro path entry member
    apply Origin.set found asked _ state.messages nextId (valid.origin path entry member)
    intro write stored
    rw [landed]
    exact stored

theorem State.accept_self (state : State) (call : Nat) (request : Request) (write : Write) :
    state.accept call request write (request.path write) =
      request.store write state.nextId ⟨request.data, call⟩ (state.messages (request.path write)) :=
  Function.update_self ..

theorem State.accept_of_ne (state : State) (call : Nat) {request : Request} {write : Write} {path : Path}
    (other : path ≠ request.path write) : state.accept call request write path = state.messages path :=
  Function.update_of_ne other ..

private theorem accepted_fresh {state : State} (valid : Valid verdict state) (call : Nat) (request : Request) (write : Write)
    (path : Path) (number : Nat) (present : DocumentId.auto number ∈ state.accept call request write path) :
    number < state.nextId + 1 := by
  have old : DocumentId.auto number ∈ state.messages path → number < state.nextId + 1 := by
    intro present
    have bound := valid.fresh path number present
    omega
  by_cases here : path = request.path write
  · subst here
    rw [State.accept_self] at present
    cases write
    all_goals
      rcases (AList.mem_insert _).mp present with same | present
      · simp only [DocumentId.auto.injEq, reduceCtorEq] at same <;> omega
      · exact old present
  · rw [State.accept_of_ne _ _ here] at present
    exact old present

private theorem accepted_copies {state : State} (valid : Valid verdict state) (call : Nat) (request : Request) (write : Write)
    {path : Path} (log : path.name ≠ recentMessages) (other : Nat) :
    (state.accept call request write path).copies other =
      (state.messages path).copies other + if request.path write = path ∧ write.logs ∧ call = other then 1 else 0 := by
  by_cases here : request.path write = path
  · subst here
    rw [State.accept_self]
    have fresh : DocumentId.auto state.nextId ∉ state.messages (request.path write) := by
      intro present
      exact Nat.lt_irrefl _ (valid.fresh _ _ present)
    cases write with
    | sent | received => simpa [Request.store, Write.logs] using Collection.copies_addDocument fresh ⟨request.data, call⟩ other
    | recentSent | recentReceived => exact absurd rfl log
  · rw [State.accept_of_ne _ _ (Ne.symm here)]
    simp [here]

private theorem accepted_deliveries {upload : Upload} {write : Write} (held : upload.status write = .issued) (path : Path) :
    (upload.answer write none).deliveries path =
      upload.deliveries path + if upload.request.path write = path ∧ write.logs then 1 else 0 := by
  have asked : (upload.answer write none).request = upload.request := rfl
  simp only [Upload.deliveries, asked, Upload.answer_landed]
  cases write <;> simp [held, Write.logs, Nat.add_comm]

theorem Valid.step {state next : State} {event : Event} (valid : Valid verdict state)
    (stepped : Step verdict state event next) : Valid verdict next := by
  cases stepped with
  | ignored => exact valid
  | @begun currentUid message user now =>
    refine ⟨?_, ?_, ?_, ?_⟩
    · intro call upload found
      rcases Slots.getElem?_append found with old | rfl
      · exact valid.calls call upload old
      · exact Upload.begin_sound _
    · exact valid.fresh
    · intro path log call
      rw [valid.copies path log call, List.getElem?_append]
      split
      next => rfl
      next outside =>
        rw [List.getElem?_eq_none (by omega)]
        cases position : call - state.uploads.length <;> simp [Upload.begin, Upload.deliveries]
    · intro path entry member
      obtain ⟨upload, write, origin⟩ := valid.origin path entry member
      have inside := (List.getElem?_eq_some_iff.mp origin.found).1
      refine ⟨upload, write, ?_, origin.landed, origin.path, origin.data, origin.names⟩
      rw [List.getElem?_append_left inside]
      exact origin.found
  | @rejected call write upload error found held refused =>
    apply valid.unstored found ((valid.calls call upload found).answer held) rfl _ (Nat.le_succ _)
    intro other
    rw [Upload.answer_landed, refused]
    split
    next same => subst same; simp [held]
    next => rfl
  | @accepted call write upload found held taken =>
    refine ⟨?_, ?_, ?_, ?_⟩
    · exact set_calls valid found ((valid.calls call upload found).answer held)
    · exact accepted_fresh valid call upload.request write
    · intro path log other
      rw [accepted_copies valid call upload.request write log, valid.copies path log other, Slots.getElem?_set found, taken]
      by_cases same : call = other
      · subst same
        simp [found, accepted_deliveries held]
      · simp [same]
    · intro path entry member
      have keeps : ∀ other, (upload.status other).landed = true →
          ((upload.answer write (verdict call write)).status other).landed = true := by
        intro other landed
        rw [Upload.answer_landed, taken]
        split <;> simp [landed]
      by_cases here : path = upload.request.path write
      · subst here
        simp only [State.accept_self] at member
        rcases Request.store_entries member with old | ⟨written, named⟩
        · exact Origin.set found (answer_request ..) keeps _ _ (valid.origin _ entry old)
        · refine ⟨upload.answer write (verdict call write), write, ?_, ?_, rfl, ?_, named⟩
          · rw [written, Slots.getElem?_set found, if_pos rfl]
          · rw [Upload.answer_landed, if_pos rfl, taken]
            rfl
          · rw [written]
            rfl
      · simp only [State.accept_of_ne _ _ here] at member
        exact Origin.set found (answer_request ..) keeps _ _ (valid.origin path entry member)
  | @called call write upload error found held =>
    have sound := valid.calls call upload found
    exact valid.unstored found (sound.callback held) (callback_request ..) (sound.callback_landed held) (Nat.le_refl _)

theorem run_valid {events : List Event} {state : State} (ran : run verdict initial events = some state) :
    Valid verdict state :=
  Transition.run_invariant (fun _ _ _ valid (_ : True) stepped => Valid.step valid (.of_step stepped))
    initial_valid (fun _ _ => trivial) ran

end Delivery

end FireChat
