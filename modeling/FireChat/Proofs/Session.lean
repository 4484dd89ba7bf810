import FireChat.Proofs.Inbox

/-! One session of the inbox, from its first listener on: the listener delivers and its
lookups are answered, with a document or without. Everything that the process holds
can be read off what was delivered and what was answered. -/

namespace FireChat.Inbox

open Replay

/-- The one listener delivers, or one of its lookups is answered. -/
def Event.Fetches : Event → Prop
  | .snapshot .. | .reply .. => True
  | _ => False

def Event.delivered : Event → List Delivered
  | .snapshot _ _ changes => changes
  | _ => []

def Event.answered : Event → List Nat
  | .reply number _ _ => [number]
  | _ => []

/-- The lookup that an event answers with a document. -/
def Event.replied : Event → List (Nat × Fields)
  | .reply number _ (some dictionary) => [(number, dictionary)]
  | _ => []

def delivered (events : List Event) : List Delivered := events.flatMap Event.delivered

def answered (events : List Event) : List Nat := events.flatMap Event.answered

/-- The conversations of a session, one for each document that a lookup has found, in that order. -/
def replied (uid : String) (events : List Event) : List Conversation :=
  (events.flatMap Event.replied).filterMap fun (number, dictionary) =>
    (delivered events)[number]?.map fun delivery => ⟨User.init dictionary, delivery.decode (some uid)⟩

/-- The changes that these conversations come from. -/
def sources (events : List Event) : List Delivered :=
  (events.flatMap Event.replied).filterMap fun (number, _) => (delivered events)[number]?

def lastDelivered (events : List Event) (partner : String) : Option Delivered :=
  latest Delivered.documentID (.named partner) (delivered events)

abbrev partner (conversation : Conversation) : String := conversation.message.chatPartnerId

variable {uid : String} {past : List Event} {state next : State} {event : Event}

structure Session (uid : String) (past : List Event) (state : State) : Prop where
  signedIn : state.currentUser = some uid
  listener : ∃ result, state.listeners = [⟨uid, result, replied uid past⟩] ∧
    Transition.run Keyed.Items.apply .empty ((delivered past).map Delivered.change) = some result
  lookups : state.lookups.map Lookup.message = (delivered past).map (Delivered.decode (some uid))
  started : ∀ answer ∈ past.flatMap Event.replied, answer.1 < (delivered past).length
  marked : ∀ (number : Nat) (lookup : Lookup), state.lookups[number]? = some lookup → lookup.answered = true →
    number ∈ answered past
  dictionary : ∀ target, state.controller.conversationsDictionary.lookup target = latest partner target (replied uid past)
  rows : state.controller.conversations = state.controller.conversationsDictionary.entries.map Sigma.snd

theorem viewDidLoad_session (uid : String) : Session uid [] (viewDidLoad (some uid)) := by
  refine ⟨rfl, ⟨_, rfl, rfl⟩, rfl, by simp, ?_, ?_, rfl⟩
  · intro number lookup found
    simp [viewDidLoad, State.fetchConverations] at found
  · intro target
    rfl

theorem delivered_delivered (number : Nat) (owner : String) (changes : List Delivered) :
    delivered (past ++ [.snapshot number owner changes]) = delivered past ++ changes := by
  simp [delivered, Event.delivered]

theorem replied_delivered (started : ∀ answer ∈ past.flatMap Event.replied, answer.1 < (delivered past).length)
    (number : Nat) (owner : String) (changes : List Delivered) :
    replied uid (past ++ [.snapshot number owner changes]) = replied uid past := by
  have same : (past ++ [Event.snapshot number owner changes]).flatMap Event.replied = past.flatMap Event.replied := by
    simp [Event.replied]
  unfold replied
  rw [same]
  apply List.filterMap_congr
  intro answer member
  simp only [delivered_delivered, List.getElem?_append_left (started answer member)]

theorem delivered_replied (number : Nat) (target : String) (dictionary : Option Fields) :
    delivered (past ++ [.reply number target dictionary]) = delivered past := by
  simp [delivered, Event.delivered]

private theorem answered_delivered (number : Nat) (owner : String) (changes : List Delivered) :
    answered (past ++ [.snapshot number owner changes]) = answered past := by
  simp [answered, Event.answered]

private theorem answered_replied (number : Nat) (target : String) (dictionary : Option Fields) :
    answered (past ++ [.reply number target dictionary]) = answered past ++ [number] := by
  simp [answered, Event.answered]

theorem replied_missing (number : Nat) (target : String) :
    replied uid (past ++ [.reply number target none]) = replied uid past := by
  simp [replied, delivered_replied, Event.replied]

private theorem only_listener {number : Nat} {listener only : Listener} (listeners : state.listeners = [only])
    (found : state.listeners[number]? = some listener) : number = 0 ∧ listener = only := by
  rw [listeners] at found
  have inside := (List.getElem?_eq_some_iff.mp found).1
  simp only [List.length_singleton] at inside
  obtain rfl : number = 0 := by omega
  exact ⟨rfl, (Option.some.inj found).symm⟩

/-- The message of a lookup is that of the delivered change with its number. -/
theorem Session.asked (session : Session uid past state) {number : Nat} {lookup : Lookup}
    (asked : state.lookups[number]? = some lookup) :
    ∃ delivery, (delivered past)[number]? = some delivery ∧ delivery.decode (some uid) = lookup.message := by
  have message : ((delivered past)[number]?).map (Delivered.decode (some uid)) = some lookup.message := by
    rw [← List.getElem?_map, ← session.lookups, List.getElem?_map, asked]
    rfl
  exact Option.map_eq_some_iff.mp message

theorem Session.replied_found (session : Session uid past state) {number : Nat} {lookup : Lookup}
    (asked : state.lookups[number]? = some lookup) (target : String) (dictionary : Fields) :
    replied uid (past ++ [.reply number target (some dictionary)]) =
      replied uid past ++ [⟨User.init dictionary, lookup.message⟩] := by
  obtain ⟨delivery, present, decoded⟩ := session.asked asked
  simp only [replied, delivered_replied, List.flatMap_append, List.filterMap_append, List.flatMap_cons, List.flatMap_nil,
    Event.replied, List.append_nil, List.filterMap_cons, List.filterMap_nil, present, Option.map_some, decoded]

private theorem Session.marked_set (session : Session uid past state) {number : Nat} {lookup : Lookup} (target : String)
    (dictionary : Option Fields) (other : Nat) (current : Lookup)
    (held : (state.lookups.set number { lookup with answered := true })[other]? = some current)
    (marked : current.answered = true) : other ∈ answered (past ++ [.reply number target dictionary]) := by
  rw [answered_replied, List.mem_append]
  rw [List.getElem?_set] at held
  split at held
  next here => exact Or.inr (List.mem_singleton.mpr here.symm)
  next => exact Or.inl (session.marked other current held marked)

private theorem Session.snapshot (session : Session uid past state) {number : Nat} {changes : List Delivered} {listener : Listener}
    {result : QueryResult} (found : state.listeners[number]? = some listener)
    (moved : listener.result.snapshot changes = some result) :
    Session uid (past ++ [.snapshot number listener.uid changes])
      { state with
        listeners := state.listeners.set number { listener with result }
        lookups := state.lookups ++ Service.fetchConversations state.currentUser number changes } := by
  obtain ⟨before, listeners, ran⟩ := session.listener
  obtain ⟨rfl, rfl⟩ := only_listener listeners found
  have grown := @delivered_delivered past 0 uid changes
  have same := @replied_delivered uid past session.started 0 uid changes
  refine ⟨session.signedIn, ⟨result, ?_, ?_⟩, ?_, ?_, ?_, ?_, session.rows⟩
  · rw [listeners, same]
    rfl
  · rw [grown, List.map_append, Transition.run_append, ran]
    exact (QueryResult.snapshot_eq_some.mp moved).1
  · rw [grown, List.map_append, List.map_append, session.lookups, session.signedIn, Service.fetchConversations, List.map_map]
    rfl
  · intro answer member
    have before : answer ∈ past.flatMap Event.replied := by simpa [Event.replied] using member
    have inside := session.started answer before
    rw [grown, List.length_append]
    omega
  · intro number lookup found marked
    rw [answered_delivered]
    rw [List.getElem?_append] at found
    split at found
    · exact session.marked number lookup found marked
    · obtain ⟨delivery, _, rfl⟩ := List.mem_map.mp (List.mem_of_getElem? found)
      cases marked
  · rw [same]
    exact session.dictionary

private theorem Session.missing (session : Session uid past state) {number : Nat} {lookup : Lookup}
    (asked : state.lookups[number]? = some lookup) :
    Session uid (past ++ [.reply number lookup.message.chatPartnerId none])
      { state with lookups := state.lookups.set number { lookup with answered := true } } := by
  refine ⟨session.signedIn, ?_, ?_, ?_, session.marked_set _ none, ?_, session.rows⟩
  · rw [replied_missing, delivered_replied]
    exact session.listener
  · rw [delivered_replied, ← session.lookups]
    exact Slots.map_set asked Lookup.message rfl
  · rw [delivered_replied]
    simpa [Event.replied] using session.started
  · rw [replied_missing]
    exact session.dictionary

private theorem Session.found (session : Session uid past state) {number : Nat} {dictionary : Fields} {lookup : Lookup}
    {listener : Listener} (asked : state.lookups[number]? = some lookup)
    (found : state.listeners[lookup.listener]? = some listener) :
    Session uid (past ++ [.reply number lookup.message.chatPartnerId (some dictionary)])
      { state with
        lookups := state.lookups.set number { lookup with answered := true }
        listeners := state.listeners.set lookup.listener
          { listener with conversations := listener.conversations ++ [⟨User.init dictionary, lookup.message⟩] }
        controller := state.controller.fetchConverations
          (listener.conversations ++ [⟨User.init dictionary, lookup.message⟩]) } := by
  obtain ⟨result, listeners, ran⟩ := session.listener
  obtain ⟨first, rfl⟩ := only_listener listeners found
  obtain ⟨delivery, present, _⟩ := session.asked asked
  have grown := session.replied_found asked lookup.message.chatPartnerId dictionary
  refine ⟨session.signedIn, ⟨result, ?_, ?_⟩, ?_, ?_, session.marked_set _ (some dictionary), ?_, rfl⟩
  · rw [listeners, first, grown]
    rfl
  · rw [delivered_replied]
    exact ran
  · rw [delivered_replied, ← session.lookups]
    exact Slots.map_set asked Lookup.message rfl
  · intro answer member
    rw [delivered_replied]
    simp only [List.flatMap_append, List.mem_append] at member
    rcases member with old | new
    · exact session.started answer old
    · obtain rfl : answer = (number, dictionary) := by simpa [Event.replied] using new
      exact (List.getElem?_eq_some_iff.mp present).1
  · intro target
    rw [grown]
    exact lookup_replay_grown partner session.dictionary target

theorem Session.step (session : Session uid past state) (fetches : event.Fetches) (stepped : Step state event next) :
    Session uid (past ++ [event]) next := by
  cases stepped with
  | signIn | authenticationComplete | thrown | signedOut => cases fetches
  | delivered found moved => exact session.snapshot found moved
  | missing asked waiting => exact session.missing asked
  | replied asked waiting found => exact session.found asked found

theorem run_session {events : List Event} (fetches : ∀ event ∈ events, event.Fetches)
    (ran : run (viewDidLoad (some uid)) events = some state) : Session uid events state :=
  Transition.run_history (fun _ _ _ _ session allowed stepped => Session.step session allowed (.of_step stepped))
    (viewDidLoad_session uid) fetches ran

theorem replied_messages (uid : String) (events : List Event) :
    (replied uid events).map Conversation.message = (sources events).map (Delivered.decode (some uid)) := by
  rw [replied, sources, List.map_filterMap, List.map_filterMap]
  apply List.filterMap_congr
  intro answer _
  simp only [Option.map_map]
  rfl

/-- What holds of the changes of every snapshot holds of everything that a session delivers. -/
theorem run_deliveries {allowed : Event → Prop} {holds : Delivered → Prop} {events : List Event}
    (fetches : ∀ event, allowed event → event.Fetches)
    (each : ∀ number changes (result next : QueryResult), allowed (.snapshot number uid changes) →
      result.snapshot changes = some next → ∀ delivery ∈ changes, holds delivery)
    (admitted : ∀ event ∈ events, allowed event) (ran : run (viewDidLoad (some uid)) events = some state) :
    ∀ delivery ∈ delivered events, holds delivery := by
  have keeps : ∀ past state event next, (Session uid past state ∧ ∀ delivery ∈ delivered past, holds delivery) →
      allowed event → step state event = some next →
      Session uid (past ++ [event]) next ∧ ∀ delivery ∈ delivered (past ++ [event]), holds delivery := by
    intro past state event next ⟨session, held⟩ legal stepped
    have stepped := Step.of_step stepped
    refine ⟨session.step (fetches event legal) stepped, ?_⟩
    cases stepped with
    | signIn | authenticationComplete | thrown | signedOut => exact absurd (fetches _ legal) id
    | missing | replied => simpa only [delivered_replied] using held
    | delivered found moved =>
      obtain ⟨_, listeners, _⟩ := session.listener
      obtain ⟨rfl, rfl⟩ := only_listener listeners found
      intro delivery member
      rw [delivered_delivered] at member
      rcases List.mem_append.mp member with old | fresh
      · exact held delivery old
      · exact each _ _ _ _ legal moved delivery fresh
  exact (Transition.run_history keeps ⟨viewDidLoad_session uid, by simp [delivered]⟩ admitted ran).2

/-- The document comes from the owner's mailbox. -/
def FiledFor (owner : String) (delivery : Delivered) : Prop :=
  ∃ partner, delivery.documentID = .named partner ∧ Addressed owner partner delivery.change.item.data

theorem run_filed {events : List Event} (fetches : ∀ event ∈ events, event.Fetches) (filed : ∀ event ∈ events, event.Filed)
    (ran : run (viewDidLoad (some uid)) events = some state) : ∀ delivery ∈ delivered events, FiledFor uid delivery := by
  refine run_deliveries (fun _ (allowed : Event.Fetches _ ∧ Event.Filed _) => allowed.1) ?_
    (fun event member => ⟨fetches event member, filed event member⟩) ran
  intro _ _ _ _ allowed _
  exact allowed.2

/-- A delivered document is filed under the partner that the inbox decodes from it. -/
theorem FiledFor.decode_partner {delivery : Delivered} (filed : FiledFor uid delivery) (target : String) :
    (delivery.decode (some uid)).chatPartnerId = target ↔ delivery.documentID = .named target := by
  obtain ⟨partner, named, addressed⟩ := filed
  rw [named, Delivered.decode, Addressing.addressed_partner _ addressed, DocumentId.named.injEq]

theorem find_delivered {result : QueryResult}
    (ran : Transition.run Keyed.Items.apply .empty ((delivered past).map Delivered.change) = some result) (target : String) :
    result.find (.named target) = (lastDelivered past target).bind fun delivery => delivery.change.left := by
  rw [Keyed.Items.find_run ran, latest_map, Option.bind_map]
  rfl

/-- Every document of the result has been delivered. -/
theorem result_delivered {result : QueryResult}
    (ran : Transition.run Keyed.Items.apply .empty ((delivered past).map Delivered.change) = some result)
    {document : QueryDocumentSnapshot} (member : document ∈ result.list) :
    ∃ delivery ∈ delivered past, delivery.change.item = document := by
  have found : result.find document.documentID = some document := Keyed.Items.find_eq_some.mpr ⟨member, rfl⟩
  rw [Keyed.Items.find_run ran] at found
  obtain ⟨change, last, left⟩ := Option.bind_eq_some_iff.mp found
  obtain ⟨delivery, present, rfl⟩ := List.mem_map.mp (latest_eq_some _ last).1
  refine ⟨delivery, present, ?_⟩
  obtain ⟨⟨kind, item, oldIndex, newIndex⟩, now⟩ := delivery
  cases kind with
  | added | modified => exact Option.some.inj left
  | removed => cases left

end FireChat.Inbox
