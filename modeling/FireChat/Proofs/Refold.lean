import FireChat.Proofs.Session
import FireChat.Rows

/-! Each reply replays the whole array over the dictionary that the replies before it
have left. This is the same as one insertion, and the rows list the dictionary. -/

namespace FireChat.Inbox

open Replay

variable {uid : String} {events : List Event} {state next : State}

/-- There is one row for each partner, with the conversation replied last, and a tap on it opens that partner's chat. -/
structure Tabulates (controller : ConversationsController) (replied : List Conversation) : Prop where
  distinct : (controller.conversations.map partner).Nodup
  rows : ∀ target row, row ∈ controller.conversations ∧ partner row = target ↔ latest partner target replied = some row
  opens : ∀ (row : Nat) conversation, controller.conversations[row]? = some conversation →
    (controller.didSelectRowAt row).map User.uid = some conversation.message.chatPartnerId

private theorem run_addressed (fetches : ∀ event ∈ events, event.Fetches) (profiled : ∀ event ∈ events, event.Profiled)
    (ran : run (viewDidLoad (some uid)) events = some state) :
    ∀ conversation ∈ replied uid events, conversation.user.uid = conversation.message.chatPartnerId := by
  have keeps : ∀ past state event next, (Session uid past state ∧
        ∀ conversation ∈ replied uid past, conversation.user.uid = conversation.message.chatPartnerId) →
      event.Fetches ∧ event.Profiled → step state event = some next → Session uid (past ++ [event]) next ∧
        ∀ conversation ∈ replied uid (past ++ [event]), conversation.user.uid = conversation.message.chatPartnerId := by
    intro past state event next ⟨session, held⟩ ⟨fetches, profiled⟩ stepped
    have stepped := Step.of_step stepped
    refine ⟨session.step fetches stepped, ?_⟩
    cases stepped with
    | signIn | authenticationComplete | thrown | signedOut => cases fetches
    | delivered => simpa only [replied_delivered session.started] using held
    | missing => simpa only [replied_missing] using held
    | @replied number dictionary lookup listener asked =>
      rw [session.replied_found asked]
      intro conversation member
      rcases List.mem_append.mp member with old | new
      · exact held conversation old
      · obtain rfl := List.mem_singleton.mp new
        have uid : dictionary.string? "uid" = some lookup.message.chatPartnerId := profiled
        simp [User.init, uid]
  exact (Transition.run_history keeps ⟨viewDidLoad_session uid, by simp [replied]⟩
    (fun event member => ⟨fetches event member, profiled event member⟩) ran).2

private theorem Session.tabulates (session : Session uid events state)
    (addressed : ∀ conversation ∈ replied uid events, conversation.user.uid = conversation.message.chatPartnerId) :
    Tabulates state.controller (replied uid events) := by
  have listed : ∀ row, row ∈ state.controller.conversations ↔ latest partner (partner row) (replied uid events) = some row := by
    intro row
    rw [session.rows]
    exact mem_values partner session.dictionary
  refine ⟨?_, ?_, ?_⟩
  · rw [session.rows]
    exact nodup_values partner session.dictionary
  · intro target row
    refine ⟨?_, ?_⟩
    · intro ⟨member, same⟩
      exact same ▸ (listed row).mp member
    · intro last
      have same := (latest_eq_some partner last).2
      exact ⟨(listed row).mpr (same.symm ▸ last), same⟩
  · intro row conversation shown
    have last := (listed conversation).mp (List.mem_of_getElem? shown)
    simp [ConversationsController.didSelectRowAt, shown, addressed conversation (latest_eq_some partner last).1]

/-- A reply's replay of the whole array is the insertion of its own conversation, and
the table shows for each partner what was replied last. -/
theorem replay_inserts_newest (fetches : ∀ event ∈ events, event.Fetches) (profiled : ∀ event ∈ events, event.Profiled)
    (ran : run (viewDidLoad (some uid)) events = some state) {number : Nat} {target : String} {dictionary : Fields}
    (profile : dictionary.string? "uid" = some target) (replies : step state (.reply number target (some dictionary)) = some next) :
    ∃ newest, replied uid (events ++ [.reply number target (some dictionary)]) = replied uid events ++ [newest] ∧
      next.controller = state.controller.fetchConverations (replied uid events ++ [newest]) ∧
      (∀ partner, next.controller.conversationsDictionary.lookup partner =
        (state.controller.conversationsDictionary.insert newest.message.chatPartnerId newest).lookup partner) ∧
      Tabulates next.controller (replied uid events ++ [newest]) := by
  have session := run_session fetches ran
  have grown : ∀ event ∈ events ++ [.reply number target (some dictionary)], event.Fetches ∧ event.Profiled := by
    intro event member
    rcases List.mem_append.mp member with old | new
    · exact ⟨fetches event old, profiled event old⟩
    · obtain rfl := List.mem_singleton.mp new
      exact ⟨trivial, profile⟩
  have reached : run (viewDidLoad (some uid)) (events ++ [.reply number target (some dictionary)]) = some next :=
    Transition.run_concat.mpr ⟨state, ran, replies⟩
  have after := run_session (fun event member => (grown event member).1) reached
  have addressed := run_addressed (fun event member => (grown event member).1) (fun event member => (grown event member).2) reached
  have tabulated := after.tabulates addressed
  cases Step.of_step replies with
  | @replied _ _ lookup listener asked waiting found =>
    have newest := session.replied_found asked lookup.message.chatPartnerId dictionary
    rw [newest] at tabulated
    obtain ⟨result, listeners, _⟩ := session.listener
    have array : listener.conversations = replied uid events := by
      rw [listeners] at found
      exact congrArg Listener.conversations (List.mem_singleton.mp (List.mem_of_getElem? found))
    refine ⟨_, newest, by rw [array], ?_, tabulated⟩
    intro other
    rw [array]
    exact lookup_replay_concat partner session.dictionary other

def secondMessage : List Event := firstMessage ++ [.snapshot 0 "bob" [summary .modified "again" ⟨2, 0⟩]]

private theorem secondMessage_profiled : ∀ event ∈ secondMessage, event.Profiled := by
  intro event member
  rcases List.mem_append.mp member with old | new
  · exact firstMessage_profiled event old
  · rw [List.mem_singleton.mp new]
    trivial

theorem second_reply_inserted :
    ∃ state next newest, run (viewDidLoad (some "bob")) secondMessage = some state ∧
      step state (.reply 1 "ann" (some (profile "ann"))) = some next ∧
      Tabulates next.controller (replied "bob" secondMessage ++ [newest]) := by
  obtain ⟨newest, _, _, _, tabulated⟩ := @replay_inserts_newest "bob" secondMessage _ _
    (by simp [secondMessage, firstMessage, Event.Fetches]) secondMessage_profiled rfl 1 "ann" (profile "ann") rfl rfl
  exact ⟨_, _, newest, rfl, rfl, tabulated⟩

end FireChat.Inbox
