import FireChat.Proofs.Filings

/-! The inbox across the sessions of one process. Nothing that a session loaded is
ever taken away, so a row belongs to whom its message was decoded for. -/

namespace FireChat

/-- The row is one of the user's chats, under the other participant. -/
def Conversation.Of (uid : String) (conversation : Conversation) : Prop :=
  conversation.message.fromId = uid ∧ conversation.user.uid = conversation.message.toId ∨
    conversation.message.toId = uid ∧ conversation.user.uid = conversation.message.fromId

/-- The row's user is the partner that was looked up for its message. -/
structure Conversation.Fits (conversation : Conversation) : Prop where
  distinct : conversation.message.fromId ≠ conversation.message.toId
  user : conversation.user.uid = conversation.message.chatPartnerId

theorem Conversation.Fits.of_iff {conversation : Conversation} (fits : conversation.Fits) (uid : String) :
    conversation.Of uid ↔ conversation.message.decodedFor = uid := by
  obtain ⟨distinct, user⟩ := fits
  unfold Conversation.Of Message.decodedFor
  rw [user, Message.chatPartnerId]
  cases conversation.message.isFromCurrentUser <;> simp [distinct, Ne.symm distinct]

namespace Inbox

open Replay Transition

/-- Whoever is signed in sees only rows of his own. -/
def Isolated (state : State) : Prop :=
  ∀ uid, state.currentUser = some uid → ∀ row ∈ state.controller.conversations, row.Of uid

/-- At a sign-in, what was filed last under each partner was read for the account that
signs in. So it is at a reply, for all that its listener files with it. -/
def Isolating (restored : Option String) (past : List Event) : Event → Prop
  | .signIn uid => ∀ partner source, lastFiled restored past partner = some source → source.reader = uid
  | .reply number _ (some _) => ∀ uid answered, account restored past = some uid → (deliveries restored past)[number]? = some answered →
      ∀ partner source, latest Source.partner partner (filedBy restored past answered.listener ++ [answered]) = some source →
        source.reader = uid
  | _ => True

private structure Sound (state : State) : Prop where
  lookups : ∀ lookup ∈ state.lookups, lookup.message.fromId ≠ lookup.message.toId
  listeners : ∀ listener ∈ state.listeners, ∀ conversation ∈ listener.conversations, conversation.Fits
  entries : ∀ partner conversation, state.controller.conversationsDictionary.lookup partner = some conversation →
    conversation.Fits
  rows : state.controller.conversations = state.controller.conversationsDictionary.entries.map Sigma.snd

private theorem Sound.mem_rows {state : State} (sound : Sound state) {row : Conversation} :
    row ∈ state.controller.conversations ↔
      ∃ partner, state.controller.conversationsDictionary.lookup partner = some row := by
  rw [sound.rows, List.mem_map]
  refine ⟨?_, ?_⟩
  · intro ⟨⟨partner, conversation⟩, member, same⟩
    exact ⟨partner, AList.mem_lookup_iff.mpr (same ▸ member)⟩
  · intro ⟨partner, found⟩
    exact ⟨⟨partner, row⟩, AList.mem_lookup_iff.mp found, rfl⟩

private theorem Sound.fetchConverations {state : State} (sound : Sound state) : Sound state.fetchConverations := by
  unfold State.fetchConverations
  split
  · exact sound
  · refine ⟨sound.lookups, ?_, sound.entries, sound.rows⟩
    intro listener member conversation held
    rcases List.mem_append.mp member with old | new
    · exact sound.listeners listener old conversation held
    · obtain rfl := List.mem_singleton.mp new
      cases held

private theorem viewDidLoad_sound (restored : Option String) : Sound (viewDidLoad restored) := by
  apply Sound.fetchConverations
  refine ⟨?_, ?_, ?_, rfl⟩
  · intro lookup member
    cases member
  · intro listener member
    cases member
  · intro partner conversation found
    cases found

private theorem addressed_distinct {owner partner : String} {data : Fields} (addressed : Addressed owner partner data)
    (currentUser : Option String) (now : Timestamp) :
    (Message.init currentUser now data).fromId ≠ (Message.init currentUser now data).toId := by
  obtain ⟨distinct, ⟨fromId, toId⟩ | ⟨fromId, toId⟩⟩ := addressed
  · simpa [Message.init, fromId, toId] using distinct
  · simpa [Message.init, fromId, toId] using Ne.symm distinct

variable {state next : State} {event : Event}

private theorem Sound.delivered (sound : Sound state) {number : Nat} {changes : List Delivered} {listener : Listener}
    (found : state.listeners[number]? = some listener) (filed : (Event.snapshot number listener.uid changes).Filed)
    (result : QueryResult) :
    Sound
      { state with
        listeners := state.listeners.set number { listener with result }
        lookups := state.lookups ++ Service.fetchConversations state.currentUser number changes } := by
  refine ⟨?_, ?_, sound.entries, sound.rows⟩
  · intro lookup member
    rcases List.mem_append.mp member with old | new
    · exact sound.lookups lookup old
    · obtain ⟨delivery, held, rfl⟩ := List.mem_map.mp new
      obtain ⟨partner, _, addressed⟩ := filed delivery held
      exact addressed_distinct addressed state.currentUser delivery.now
  · intro other member conversation held
    rcases List.mem_or_eq_of_mem_set member with old | rfl
    · exact sound.listeners other old conversation held
    · exact sound.listeners listener (List.mem_of_getElem? found) conversation held

private theorem Sound.fits (sound : Sound state) {number : Nat} {lookup : Lookup} {dictionary : Fields}
    (asked : state.lookups[number]? = some lookup)
    (profiled : (Event.reply number lookup.message.chatPartnerId (some dictionary)).Profiled) :
    Conversation.Fits ⟨User.init dictionary, lookup.message⟩ := by
  refine ⟨sound.lookups lookup (List.mem_of_getElem? asked), ?_⟩
  have uid : dictionary.string? "uid" = some lookup.message.chatPartnerId := profiled
  simp [User.init, uid]

private theorem answered_lookups (sound : Sound state) {number : Nat} {lookup : Lookup}
    (asked : state.lookups[number]? = some lookup) :
    ∀ other ∈ state.lookups.set number { lookup with answered := true }, other.message.fromId ≠ other.message.toId := by
  intro other member
  rcases List.mem_or_eq_of_mem_set member with old | rfl
  · exact sound.lookups other old
  · exact sound.lookups lookup (List.mem_of_getElem? asked)

private theorem Sound.replied (sound : Sound state) {number : Nat} {lookup : Lookup} {listener : Listener} {dictionary : Fields}
    (asked : state.lookups[number]? = some lookup) (found : state.listeners[lookup.listener]? = some listener)
    (profiled : (Event.reply number lookup.message.chatPartnerId (some dictionary)).Profiled) :
    Sound
      { state with
        lookups := state.lookups.set number { lookup with answered := true }
        listeners := state.listeners.set lookup.listener
          { listener with conversations := listener.conversations ++ [⟨User.init dictionary, lookup.message⟩] }
        controller := state.controller.fetchConverations
          (listener.conversations ++ [⟨User.init dictionary, lookup.message⟩]) } := by
  have arriving : ∀ conversation ∈ listener.conversations ++ [⟨User.init dictionary, lookup.message⟩],
      Conversation.Fits conversation := by
    intro conversation member
    rcases List.mem_append.mp member with old | new
    · exact sound.listeners listener (List.mem_of_getElem? found) conversation old
    · obtain rfl := List.mem_singleton.mp new
      exact sound.fits asked profiled
  refine ⟨answered_lookups sound asked, ?_, ?_, rfl⟩
  · intro other member conversation held
    rcases List.mem_or_eq_of_mem_set member with old | rfl
    · exact sound.listeners other old conversation held
    · exact arriving conversation held
  · intro partner conversation entry
    rw [fetchConverations_lookup, Option.or_eq_some_iff] at entry
    rcases entry with new | ⟨_, old⟩
    · exact arriving conversation (latest_eq_some _ new).1
    · exact sound.entries partner conversation old

private theorem Sound.step (sound : Sound state) (filed : event.Filed) (profiled : event.Profiled)
    (stepped : Step state event next) : Sound next := by
  cases stepped with
  | signIn => exact ⟨sound.lookups, sound.listeners, sound.entries, sound.rows⟩
  | authenticationComplete => exact sound.fetchConverations
  | thrown => exact sound
  | signedOut => exact ⟨sound.lookups, sound.listeners, sound.entries, sound.rows⟩
  | delivered found moved => exact sound.delivered found filed _
  | missing asked waiting => exact ⟨answered_lookups sound asked, sound.listeners, sound.entries, sound.rows⟩
  | replied asked waiting found => exact sound.replied asked found profiled

section Conditions

variable {restored : Option String} {past : List Event} (recorded : Recorded restored past state)

include recorded

/-- Whose chats the rows are, in terms of what was filed last. -/
private theorem rows_of_iff (sound : Sound state) (uid : String) :
    (∀ row ∈ state.controller.conversations, row.Of uid) ↔
      ∀ partner source, lastFiled restored past partner = some source → source.reader = uid := by
  have read : ∀ {partner source}, lastFiled restored past partner = some source → source.message.decodedFor = source.reader :=
    fun last => (recorded.filed _ (mem_filings (lastFiled_mem last))).decoded.1
  refine ⟨?_, ?_⟩
  · intro own partner source last
    have message := recorded.dictionary partner
    rw [last] at message
    obtain ⟨row, held, same⟩ := Option.map_eq_some_iff.mp message
    have mine := ((sound.entries partner row held).of_iff uid).mp (own row (sound.mem_rows.mpr ⟨partner, held⟩))
    rw [← read last, ← same]
    exact mine
  · intro own row member
    obtain ⟨partner, held⟩ := sound.mem_rows.mp member
    have message := recorded.dictionary partner
    rw [held] at message
    obtain ⟨source, last, same⟩ := Option.map_eq_some_iff.mp message.symm
    apply ((sound.entries partner row held).of_iff uid).mpr
    rw [← same, read last]
    exact own partner source last

private theorem isolated_iff (sound : Sound state) : Isolated state ↔ ∀ uid, account restored past = some uid →
    ∀ partner source, lastFiled restored past partner = some source → source.reader = uid := by
  unfold Isolated
  rw [recorded.signedIn]
  exact forall_congr' fun uid => imp_congr_right fun _ => rows_of_iff recorded sound uid

end Conditions

private theorem isolated_step {restored : Option String} {past : List Event} (recorded : Recorded restored past state)
    (sound : Sound state) (isolated : Isolated state) (filed : event.Filed) (profiled : event.Profiled)
    (stepped : Step state event next) : Isolated next ↔ Isolating restored past event := by
  have kept := sound.step filed profiled stepped
  have before := (isolated_iff recorded sound).mp isolated
  have after := recorded.step filed stepped
  cases stepped with
  | @signIn uid =>
    refine Iff.trans ?_ (rows_of_iff recorded sound uid)
    refine ⟨fun reached row member => reached uid rfl row member, ?_⟩
    intro own other signedIn row member
    obtain rfl := Option.some.inj signedIn
    exact own row member
  | authenticationComplete =>
    refine iff_of_true ?_ trivial
    intro uid signedIn row member
    unfold State.fetchConverations at signedIn member
    split at signedIn
    · exact isolated uid signedIn row (by simpa [*] using member)
    · exact isolated uid signedIn row (by simpa [*] using member)
  | thrown => exact iff_of_true isolated trivial
  | signedOut =>
    refine iff_of_true ?_ trivial
    intro uid signedIn
    cases signedIn
  | delivered found moved => exact iff_of_true isolated trivial
  | missing asked waiting => exact iff_of_true isolated trivial
  | replied asked waiting found =>
    obtain ⟨answered, held, _⟩ := recorded.asked asked
    rw [isolated_iff after kept, account_concat]
    refine ⟨?_, ?_⟩
    · intro own uid other signedIn here partner source last
      cases held.symm.trans here
      apply own uid signedIn partner source
      rw [lastFiled_replied held, last, Option.some_or]
    · intro own uid signedIn partner source last
      rw [lastFiled_replied held, Option.or_eq_some_iff] at last
      rcases last with new | ⟨_, old⟩
      · exact own uid answered signedIn held partner source new
      · exact before uid signedIn partner source old

/-- Whoever is signed in sees only his own rows, in every state of a process,
exactly when every event of the process is isolating. -/
theorem inbox_isolated_iff {restored : Option String} {events : List Event} {state : State}
    (filed : ∀ event ∈ events, event.Filed) (profiled : ∀ event ∈ events, event.Profiled)
    (ran : run (viewDidLoad restored) events = some state) :
    Throughout step Isolated (viewDidLoad restored) events ↔
      ∀ past event, past ++ [event] <+: events → Isolating restored past event := by
  have keeps : ∀ past state event next, Recorded restored past state ∧ Sound state → event.Filed ∧ event.Profiled →
      step state event = some next → Recorded restored (past ++ [event]) next ∧ Sound next :=
    fun _ _ _ _ held allowed stepped => ⟨held.1.step allowed.1 (.of_step stepped), held.2.step allowed.1 allowed.2 (.of_step stepped)⟩
  have exact_step : ∀ past state event next, Recorded restored past state ∧ Sound state → Isolated state →
      event.Filed ∧ event.Profiled → step state event = some next → (Isolated next ↔ Isolating restored past event) :=
    fun _ _ _ _ held isolated allowed stepped => isolated_step held.1 held.2 isolated allowed.1 allowed.2 (.of_step stepped)
  have start : Isolated (viewDidLoad restored) := by
    intro uid _ row member
    cases restored <;> cases member
  exact throughout_history_iff keeps exact_step ⟨viewDidLoad_recorded restored, viewDidLoad_sound restored⟩ start
    (fun event member => ⟨filed event member, profiled event member⟩) ran

/-- Carol's session loads nothing. Bob's loads a message, and he signs in once more. -/
def takingTurns : List Event :=
  [.signIn "carol", .authenticationComplete, .logout false, .signIn "bob", .authenticationComplete,
    .snapshot 1 "bob" [summary .added "hello" ⟨1, 0⟩], .reply 0 "ann" (some (profile "ann")), .logout false, .signIn "bob"]

private theorem takingTurns_filed : ∀ event ∈ takingTurns, event.Filed ∧ event.Profiled := by
  intro event member
  simp only [takingTurns, List.mem_cons, List.not_mem_nil, or_false] at member
  rcases member with rfl | rfl | rfl | rfl | rfl | rfl | rfl | rfl | rfl
  case inr.inr.inr.inr.inr.inl => exact ⟨by simpa [Event.Filed] using summary_filed .added "hello" ⟨1, 0⟩, trivial⟩
  case inr.inr.inr.inr.inr.inr.inl => exact ⟨trivial, rfl⟩
  all_goals exact ⟨trivial, trivial⟩

theorem taking_turns_isolated : Throughout step Isolated (viewDidLoad none) takingTurns := by
  refine (inbox_isolated_iff (fun event member => (takingTurns_filed event member).1)
    (fun event member => (takingTurns_filed event member).2) rfl).mpr ?_
  have loaded : ∀ {source}, source ∈ filings none (takingTurns.take 8) → source.reader = "bob" := by
    intro source member
    obtain rfl := List.mem_singleton.mp member
    rfl
  intro past event shorter
  have taken := List.prefix_iff_eq_take.mp ((List.prefix_append past [event]).trans shorter)
  have held : takingTurns[past.length]? = some event := by
    obtain ⟨rest, same⟩ := shorter
    rw [← same]
    simp
  rw [taken]
  generalize past.length = number at held
  rcases number with _ | _ | _ | _ | _ | _ | _ | _ | _ | number <;> cases held <;> try trivial
  · intro partner source last
    exact nomatch lastFiled_mem last
  · intro partner source last
    exact nomatch lastFiled_mem last
  · intro uid answered signedIn delivered partner source last
    cases signedIn
    cases delivered
    obtain rfl := List.mem_singleton.mp (latest_eq_some _ last).1
    rfl
  · intro partner source last
    exact loaded (lastFiled_mem last)

/-- Bob reads a message and signs out, and Carol signs in on the same device. -/
def nextSession : List Event := firstMessage ++ [.logout false, .signIn "carol", .authenticationComplete]

theorem next_session_sees_previous :
    (∀ event ∈ nextSession, event.Filed ∧ event.Profiled) ∧
      ∃ state, run (viewDidLoad (some "bob")) nextSession = some state ∧ state.currentUser = some "carol" ∧
        state.controller.conversations.map (·.message.content) = [("hello", "ann", "bob")] ∧ ¬ Isolated state := by
  refine ⟨?_, _, rfl, rfl, rfl, ?_⟩
  · intro event member
    rcases List.mem_append.mp member with before | after
    · exact ⟨firstMessage_filed event before, firstMessage_profiled event before⟩
    · simp only [List.mem_cons, List.not_mem_nil, or_false] at after
      rcases after with rfl | rfl | rfl <;> exact ⟨trivial, trivial⟩
  · intro isolated
    rcases isolated "carol" rfl _ (List.mem_singleton_self _) with ⟨own, _⟩ | ⟨own, _⟩
    · exact absurd own (by decide)
    · exact absurd own (by decide)

def Event.Continues : Event → Prop
  | .signIn _ | .logout _ => False
  | _ => True

/-- Everything that the process holds was decoded for one account. -/
private structure Own (uid : String) (state : State) : Prop where
  signedIn : state.currentUser = some uid
  listeners : ∀ listener ∈ state.listeners, listener.uid = uid ∧
    ∀ conversation ∈ listener.conversations, conversation.message.decodedFor = uid
  lookups : ∀ lookup ∈ state.lookups, lookup.message.decodedFor = uid
  entries : ∀ partner conversation, state.controller.conversationsDictionary.lookup partner = some conversation →
    conversation.message.decodedFor = uid

private theorem decodedFor_owner {owner partner : String} {data : Fields} (addressed : Addressed owner partner data)
    (now : Timestamp) : (Message.init (some owner) now data).decodedFor = owner := by
  obtain ⟨distinct, ⟨fromId, toId⟩ | ⟨fromId, toId⟩⟩ := addressed
  · simp [Message.init, Message.decodedFor, fromId]
  · simp [Message.init, Message.decodedFor, fromId, toId, Ne.symm distinct]

private theorem Own.fetchConverations {uid : String} (own : Own uid state) : Own uid state.fetchConverations := by
  unfold State.fetchConverations
  rw [own.signedIn]
  refine ⟨rfl, ?_, own.lookups, own.entries⟩
  intro listener member
  rcases List.mem_append.mp member with old | new
  · exact own.listeners listener old
  · obtain rfl := List.mem_singleton.mp new
    refine ⟨rfl, ?_⟩
    intro conversation held
    cases held

private theorem Own.step {uid : String} (own : Own uid state) (goesOn : event.Continues) (filed : event.Filed)
    (stepped : Step state event next) : Own uid next := by
  have answered : ∀ {number lookup}, state.lookups[number]? = some lookup →
      ∀ other ∈ state.lookups.set number { lookup with answered := true }, other.message.decodedFor = uid := by
    intro number lookup asked other member
    rcases List.mem_or_eq_of_mem_set member with old | rfl
    · exact own.lookups other old
    · exact own.lookups lookup (List.mem_of_getElem? asked)
  cases stepped with
  | signIn | thrown | signedOut => cases goesOn
  | authenticationComplete => exact own.fetchConverations
  | @delivered number changes listener result found moved =>
    obtain ⟨owner, conversations⟩ := own.listeners listener (List.mem_of_getElem? found)
    refine ⟨own.signedIn, ?_, ?_, own.entries⟩
    · intro other member
      rcases List.mem_or_eq_of_mem_set member with old | rfl
      · exact own.listeners other old
      · exact ⟨owner, conversations⟩
    · intro lookup member
      rcases List.mem_append.mp member with old | new
      · exact own.lookups lookup old
      · obtain ⟨delivery, held, rfl⟩ := List.mem_map.mp new
        obtain ⟨partner, _, addressed⟩ := filed delivery held
        rw [own.signedIn, ← owner]
        exact decodedFor_owner addressed delivery.now
  | missing asked waiting => exact ⟨own.signedIn, own.listeners, answered asked, own.entries⟩
  | @replied number dictionary lookup listener asked waiting found =>
    obtain ⟨owner, conversations⟩ := own.listeners listener (List.mem_of_getElem? found)
    have arriving : ∀ conversation ∈ listener.conversations ++ [⟨User.init dictionary, lookup.message⟩],
        Message.decodedFor (Conversation.message conversation) = uid := by
      intro conversation member
      rcases List.mem_append.mp member with old | new
      · exact conversations conversation old
      · obtain rfl := List.mem_singleton.mp new
        exact own.lookups lookup (List.mem_of_getElem? asked)
    refine ⟨own.signedIn, ?_, answered asked, ?_⟩
    · intro other member
      rcases List.mem_or_eq_of_mem_set member with old | rfl
      · exact own.listeners other old
      · exact ⟨owner, arriving⟩
    · intro partner conversation entry
      rw [fetchConverations_lookup, Option.or_eq_some_iff] at entry
      rcases entry with new | ⟨_, old⟩
      · exact arriving conversation (latest_eq_some _ new).1
      · exact own.entries partner conversation old

/-- Within one session the rows are isolated, whatever is delivered and answered. -/
theorem session_isolated {uid : String} {events : List Event} (goesOn : ∀ event ∈ events, event.Continues)
    (filed : ∀ event ∈ events, event.Filed) (profiled : ∀ event ∈ events, event.Profiled)
    (ran : run (viewDidLoad (some uid)) events = some state) : Isolated state := by
  have start : Own uid (viewDidLoad (some uid)) := by
    apply Own.fetchConverations
    refine ⟨rfl, ?_, ?_, ?_⟩
    · intro listener member
      cases member
    · intro lookup member
      cases member
    · intro partner conversation held
      cases held
  have keeps : ∀ state event next, Sound state ∧ Own uid state → event.Continues ∧ event.Filed ∧ event.Profiled →
      Inbox.step state event = some next → Sound next ∧ Own uid next := by
    intro state event next ⟨sound, own⟩ ⟨goesOn, filed, profiled⟩ stepped
    exact ⟨sound.step filed profiled (.of_step stepped), own.step goesOn filed (.of_step stepped)⟩
  have held := Transition.run_invariant keeps ⟨viewDidLoad_sound (some uid), start⟩
    (fun event member => ⟨goesOn event member, filed event member, profiled event member⟩) ran
  intro other signedIn row member
  obtain rfl := Option.some.inj (held.2.signedIn.symm.trans signedIn)
  obtain ⟨partner, entry⟩ := held.1.mem_rows.mp member
  exact ((held.1.entries partner row entry).of_iff uid).mpr (held.2.entries partner row entry)

end Inbox

end FireChat
