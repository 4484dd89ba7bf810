import FireChat.Composer
import FireChat.Library.Slots

/-! What becomes of typed text. A settled run has cleared the draft after every tap, so
its text survives exactly when each clearing finds it sent, once and as it is. -/

namespace FireChat.Composer

open Draft (Clears Awaited SentOnce)

variable {currentUid : String} {user : User} {state next final : State} {event : Event} {events : List Event}

private def State.draft (state : State) : Draft.State Char where
  text := state.inputView.messageInputTextView.toList
  outbox := (state.sendings.map fun sending => sending.request.message).flatMap String.toList

inductive Step (currentUid : String) (user : User) (state : State) : Event → State → Prop where
  | typed {chunk} : Step currentUid user state (.type chunk) { state with inputView := state.inputView.type chunk }
  | sent {now} : Step currentUid user state (.handleSendMessage now)
      { state with
        sendings := state.sendings ++ [⟨⟨state.inputView.messageInputTextView, currentUid, user.uid, now⟩, true⟩] }
  | completed {number sending error} (found : state.sendings[number]? = some sending) (pending : sending.pending = true) :
      Step currentUid user state (.completion number error)
        { sendings := state.sendings.set number { sending with pending := false }
          inputView := ChatController.inputViewCompletion state.inputView error }

theorem Step.of_step (stepped : step currentUid user state event = some next) : Step currentUid user state event next := by
  cases event with
  | type chunk => cases stepped; exact .typed
  | handleSendMessage now => cases stepped; exact .sent
  | completion number error =>
    obtain ⟨sending, found, rest⟩ := Option.bind_eq_some_iff.mp stepped
    split at rest
    next pending => cases rest; exact .completed found pending
    next => cases rest

private theorem Step.draft (stepped : Step currentUid user state event next) (succeeds : event.Succeeds) :
    next.draft = Draft.step state.draft event.draft := by
  cases stepped with
  | typed => simp [State.draft, Draft.step, Event.draft, CustomInputAccessoryView.type,
      CustomInputAccessoryView.handleTextInputChange]
  | sent => simp [State.draft, Draft.step, Event.draft]
  | @completed number sending error found pending =>
    obtain rfl : error = none := succeeds
    have messages : (state.sendings.set number { sending with pending := false }).map (·.request.message) =
        state.sendings.map (·.request.message) := Slots.map_set found (·.request.message) rfl
    simp only [State.draft, messages]
    rfl

private theorem run_draft (succeed : ∀ event ∈ events, event.Succeeds) (ran : run currentUid user initial events = some state) :
    Draft.after ⟨[], []⟩ (events.map Event.draft) = state.draft := by
  have keeps : ∀ past state event next, Draft.after ⟨[], []⟩ (List.map Event.draft past) = State.draft state →
      event.Succeeds → step currentUid user state event = some next →
      Draft.after ⟨[], []⟩ ((past ++ [event]).map Event.draft) = next.draft := by
    intro past state event next held succeeds stepped
    rw [List.map_append, Draft.after_append, held, (Step.of_step stepped).draft succeeds]
    rfl
  exact Transition.run_history keeps rfl succeed ran

private theorem kept_iff (succeed : ∀ event ∈ events, event.Succeeds) (ran : run currentUid user initial events = some state) :
    state.Kept events ↔
      (Draft.after ⟨[], []⟩ (events.map Event.draft)).all = (events.map Event.draft).flatMap Draft.Event.chunk := by
  have chunks : (events.map Event.draft).flatMap Draft.Event.chunk = (events.map Event.chunk).flatMap String.toList := by
    rw [List.flatMap_map, List.flatMap_map]
    apply List.flatMap_congr
    intro event _
    cases event <;> rfl
  rw [run_draft succeed ran, chunks, State.Kept, ← String.toList_inj, String.toList_append, String.toList_join,
    String.toList_join]
  rfl

/-- With nothing pending at the end, everything that is pending now is going to clear the draft. -/
private theorem awaited_of_settled (ran : run currentUid user state events = some final) (settled : final.Settled) :
    Awaited (events.map Event.draft) ∧
      ((∃ sending ∈ state.sendings, sending.pending = true) → Clears (events.map Event.draft)) := by
  induction events generalizing state with
  | nil =>
    cases ran
    refine ⟨trivial, ?_⟩
    intro ⟨sending, member, pending⟩
    rw [settled sending member] at pending
    cases pending
  | cons event events ih =>
    obtain ⟨next, stepped, ran⟩ := Transition.run_cons.mp ran
    obtain ⟨awaited, clears⟩ := ih ran
    cases Step.of_step stepped with
    | typed => exact ⟨awaited, fun waiting => Draft.clears_cons.mpr (Or.inr (clears waiting))⟩
    | sent =>
      have clears := clears ⟨_, List.mem_append_right _ (List.mem_singleton_self _), rfl⟩
      exact ⟨⟨clears, awaited⟩, fun _ => Draft.clears_cons.mpr (Or.inr clears)⟩
    | completed => exact ⟨awaited, fun _ => Draft.clears_cons.mpr (Or.inl rfl)⟩

/-- Which completions are still to come, as far as a step needs to know. -/
private def stepPending (pending : List Bool) : Event → Option (List Bool)
  | .type _ => some pending
  | .handleSendMessage _ => some (pending ++ [true])
  | .completion number _ => if pending[number]? = some true then some (pending.set number false) else none

private theorem stepPending_eq (state : State) (event : Event) :
    stepPending (state.sendings.map Sending.pending) event.blank =
      (step currentUid user state event).map fun next => next.sendings.map Sending.pending := by
  cases event with
  | type chunk => rfl
  | handleSendMessage now => simp [stepPending, step, Service.uploadMessage, Event.blank, Upload.begin]
  | completion number error =>
    simp only [stepPending, Event.blank, step, List.getElem?_map]
    cases found : state.sendings[number]? with
    | none => rfl
    | some sending => cases pending : sending.pending <;> simp [pending, List.map_set]

private theorem pending_sameButTexts (currentUid : String) (user : User) {others : List Event} (same : SameButTexts events others) :
    (run currentUid user initial others).map (fun state => state.sendings.map Sending.pending) =
      (run currentUid user initial events).map fun state => state.sendings.map Sending.pending := by
  have pendings : ∀ events, Transition.run stepPending [] (events.map Event.blank) =
      (run currentUid user initial events).map fun state => state.sendings.map Sending.pending :=
    Transition.run_map (fun state : State => state.sendings.map Sending.pending) Event.blank stepPending_eq initial
  rw [← pendings others, ← same, pendings events]

private theorem settled_iff (state : State) : state.Settled ↔ ∀ pending ∈ state.sendings.map Sending.pending, pending = false := by
  simp [State.Settled]

private theorem settled_sameButTexts {others : List Event} {other : State} (same : SameButTexts events others)
    (ran : run currentUid user initial events = some state) (ran' : run currentUid user initial others = some other)
    (settled : state.Settled) : other.Settled := by
  have pendings := pending_sameButTexts currentUid user same
  rw [ran, ran', Option.map_some, Option.map_some, Option.some.injEq] at pendings
  rw [settled_iff, pendings]
  exact (settled_iff state).mp settled

private theorem draft_blank (event : Event) : event.blank.draft = event.draft.blank := by
  cases event <;> rfl

private theorem map_draft_blank (events : List Event) :
    (events.map Event.blank).map Event.draft = (events.map Event.draft).map Draft.Event.blank := by
  rw [List.map_map, List.map_map]
  exact List.map_congr_left fun event _ => draft_blank event

private theorem sentOnce_sameButTexts {others : List Event} (same : SameButTexts events others) :
    SentOnce (others.map Event.draft) ↔ SentOnce (events.map Event.draft) := by
  rw [← Draft.sentOnce_blank, ← map_draft_blank, ← same, map_draft_blank, Draft.sentOnce_blank]

private theorem succeeds_blank {event : Event} : event.blank.Succeeds ↔ event.Succeeds := by
  cases event <;> rfl

private theorem succeed_sameButTexts {others : List Event} (same : SameButTexts events others)
    (succeed : ∀ event ∈ events, event.Succeeds) : ∀ event ∈ others, event.Succeeds := by
  have blanks : ∀ events : List Event, (∀ event ∈ events.map Event.blank, event.Succeeds) ↔ ∀ event ∈ events, event.Succeeds := by
    intro events
    simp [succeeds_blank]
  rw [← blanks, ← same, blanks]
  exact succeed

private theorem blank_blank (events : List Event) : (events.map Event.blank).map Event.blank = events.map Event.blank := by
  rw [List.map_map]
  apply List.map_congr_left
  intro event _
  cases event <;> rfl

private def probe (before after : List Event) : List Event :=
  before.map Event.blank ++ .type "x" :: after.map Event.blank

private theorem probe_sameButTexts (before after : List Event) (text : String) :
    SameButTexts (before ++ .type text :: after) (probe before after) := by
  unfold SameButTexts probe
  rw [List.map_append, List.map_cons, List.map_append, List.map_cons, blank_blank, blank_blank]
  rfl

private theorem probe_draft (before after : List Event) :
    (probe before after).map Event.draft = (before.map Event.draft).map Draft.Event.blank ++
      .typed ['x'] :: (after.map Event.draft).map Draft.Event.blank := by
  unfold probe
  rw [List.map_append, List.map_cons, map_draft_blank, map_draft_blank]
  rfl

/-- Once no upload is pending, and whatever has been typed in such a run, the texts
sent and the text left are what was typed, exactly when every chunk that a completion
clears has been in the text at just one tap since it was typed. -/
theorem draft_kept_iff (succeed : ∀ event ∈ events, event.Succeeds) (ran : run currentUid user initial events = some state)
    (settled : state.Settled) :
    (∀ others other, SameButTexts events others → run currentUid user initial others = some other → other.Kept others) ↔
      SentOnce (events.map Event.draft) := by
  refine ⟨?_, ?_⟩
  · intro kept
    apply Draft.sentOnce_of_all
    intro past chunk rest split
    obtain ⟨before, suffix, rfl, rfl, remaining⟩ := List.map_eq_append_iff.mp split
    obtain ⟨event, after, rfl, typed, rfl⟩ := List.map_eq_cons_iff.mp remaining
    cases event with
    | type text =>
      have same := probe_sameButTexts before after text
      have pendings := pending_sameButTexts currentUid user same
      rw [ran, Option.map_some, Option.map_eq_some_iff] at pendings
      obtain ⟨other, ran', _⟩ := pendings
      have all := (kept_iff (succeed_sameButTexts same succeed) ran').mp (kept _ other same ran')
      refine ⟨'x', ?_⟩
      rw [← probe_draft, all, probe_draft]
      rw [List.flatMap_append, List.flatMap_cons, Draft.flatMap_chunk_blank, Draft.flatMap_chunk_blank]
      rfl
    | handleSendMessage now | completion number error => cases typed
  · intro once others other same ran'
    have succeed' := succeed_sameButTexts same succeed
    have settled' := settled_sameButTexts same ran ran' settled
    exact (kept_iff succeed' ran').mpr
      (Draft.all_of_sentOnce ((sentOnce_sameButTexts same).mpr once) (awaited_of_settled ran' settled').1)

private def ann : User := ⟨"a", "", "ann", "Ann", "a@x"⟩

theorem hello_sent_and_cleared : (⟨⟨"", false⟩, [⟨⟨"hello", "b", "a", ⟨1, 0⟩⟩, false⟩]⟩ : State).Kept
    [.type "hello", .handleSendMessage ⟨1, 0⟩, .completion 0 none] :=
  (@draft_kept_iff "b" ann _ [.type "hello", .handleSendMessage ⟨1, 0⟩, .completion 0 none]
      (by simp [Event.Succeeds]) rfl (by decide)).mpr
    ⟨fun _ => rfl, trivial⟩ _ _ rfl rfl

/-- The text goes on while the first upload is pending, and the completion takes it
away. Of two taps on one text the second sends it again. -/
theorem completion_clears_unsent_text :
    ¬ ∀ (currentUid : String) (user : User) (events : List Event) (state : State), (∀ event ∈ events, event.Succeeds) →
      run currentUid user initial events = some state → state.Settled → state.Kept events := by
  intro kept
  have lost := kept "b" ann [.type "hello", .handleSendMessage ⟨1, 0⟩, .type " there", .completion 0 none] _
    (by simp [Event.Succeeds]) rfl (by decide)
  revert lost
  decide

end FireChat.Composer
