import FireChat.Inbox
import FireChat.Proofs.Accounts
import FireChat.Proofs.Addressing

/-! The steps of the inbox process, each with what had to hold for it. -/

namespace FireChat.Inbox

inductive Step (state : State) : Event → State → Prop where
  | signIn {uid} : Step state (.signIn uid) { state with currentUser := some uid }
  | authenticationComplete : Step state .authenticationComplete state.fetchConverations
  | thrown : Step state (.logout true) state
  | signedOut : Step state (.logout false) { state with currentUser := none }
  | delivered {number changes listener result} (found : state.listeners[number]? = some listener)
      (moved : listener.result.snapshot changes = some result) :
      Step state (.snapshot number listener.uid changes)
        { state with
          listeners := state.listeners.set number { listener with result }
          lookups := state.lookups ++ Service.fetchConversations state.currentUser number changes }
  | missing {number lookup} (asked : state.lookups[number]? = some lookup) (waiting : lookup.answered = false) :
      Step state (.reply number lookup.message.chatPartnerId none)
        { state with lookups := state.lookups.set number { lookup with answered := true } }
  | replied {number dictionary lookup listener} (asked : state.lookups[number]? = some lookup)
      (waiting : lookup.answered = false) (found : state.listeners[lookup.listener]? = some listener) :
      Step state (.reply number lookup.message.chatPartnerId (some dictionary))
        { state with
          lookups := state.lookups.set number { lookup with answered := true }
          listeners := state.listeners.set lookup.listener
            { listener with conversations := listener.conversations ++ [⟨User.init dictionary, lookup.message⟩] }
          controller := state.controller.fetchConverations
            (listener.conversations ++ [⟨User.init dictionary, lookup.message⟩]) }

theorem Step.of_step {state next : State} {event : Event} (stepped : step state event = some next) :
    Step state event next := by
  cases event with
  | signIn uid => cases stepped; exact .signIn
  | authenticationComplete => cases stepped; exact .authenticationComplete
  | logout thrown =>
    cases thrown with
    | true => cases stepped; exact .thrown
    | false => cases stepped; exact .signedOut
  | snapshot number owner changes =>
    obtain ⟨listener, found, stepped⟩ := Option.bind_eq_some_iff.mp stepped
    obtain ⟨result, moved, stepped⟩ := Option.bind_eq_some_iff.mp stepped
    split at stepped
    next owns => cases stepped; subst owns; exact .delivered found moved
    next => cases stepped
  | reply number uid dictionary =>
    obtain ⟨lookup, asked, rest⟩ := Option.bind_eq_some_iff.mp stepped
    obtain ⟨listener, found, answered⟩ := Option.bind_eq_some_iff.mp rest
    split at answered
    next waiting =>
      obtain ⟨waiting, rfl⟩ := waiting
      cases dictionary with
      | none => cases answered; exact .missing asked waiting
      | some dictionary => cases answered; exact .replied asked waiting found
    next => cases answered

theorem fetchConverations_lookup (controller : ConversationsController) (conversations : List Conversation) (partner : String) :
    (controller.fetchConverations conversations).conversationsDictionary.lookup partner =
      (Replay.latest (fun conversation => conversation.message.chatPartnerId) partner conversations).or
        (controller.conversationsDictionary.lookup partner) :=
  Replay.lookup_replay ..

/-- A delivery of what sends have put into the owner's mailbox is filed. -/
theorem snapshot_filed {registered : String → Prop} {verdict : Nat → Write → Option NSError} {sends : List Delivery.Event}
    {store : Delivery.State} (reserved : ¬ registered recentMessages) (users : Delivery.Registered registered sends)
    (ran : Delivery.run verdict Delivery.initial sends = some store) {owner : String} {changes : List Delivered}
    (stored : ∀ delivery ∈ changes, ∃ entry ∈ (store.messages ⟨owner, recentMessages⟩).entries,
      entry.1 = delivery.documentID ∧ entry.2.data = delivery.change.item.data) (listener : Nat) :
    (Event.snapshot listener owner changes).Filed := by
  intro delivery member
  obtain ⟨entry, present, id, data⟩ := stored delivery member
  rw [← id, ← data]
  exact Delivery.recent_filed reserved users ran present

/-- A profile that a registration has stored is what a lookup of its uid expects. -/
theorem reply_profiled {lowercased : String → String} {events : List Registration.Event} {state : Registration.State}
    (ran : Registration.run lowercased Registration.initial events = some state) {uid : String} {data : Fields}
    (held : state.users uid = some data) (lookup : Nat) : (Event.reply lookup uid (some data)).Profiled :=
  (Registration.run_sound ran).profile_uid held

def profile (uid : String) : Fields where
  entries := [⟨"uid", .string uid⟩, ⟨"username", .string uid⟩]
  nodupKeys := by simp [List.NodupKeys, List.keys]

def summary (kind : Keyed.Kind) (text : String) (time : Timestamp) : Delivered :=
  ⟨⟨kind, ⟨.named "ann", Request.data ⟨text, "ann", "bob", time⟩⟩, 0, 0⟩, ⟨9, 0⟩⟩

theorem summary_filed (kind : Keyed.Kind) (text : String) (time : Timestamp) :
    ∃ partner, (summary kind text time).documentID = .named partner ∧
      Addressed "bob" partner (summary kind text time).change.item.data :=
  ⟨"ann", rfl, Addressing.addressed_data (by decide) (Or.inr ⟨rfl, rfl⟩)⟩

def firstMessage : List Event :=
  [.snapshot 0 "bob" [summary .added "hello" ⟨1, 0⟩], .reply 0 "ann" (some (profile "ann"))]

theorem firstMessage_filed : ∀ event ∈ firstMessage, event.Filed := by
  simpa [firstMessage, Event.Filed] using summary_filed .added "hello" ⟨1, 0⟩

theorem firstMessage_profiled : ∀ event ∈ firstMessage, event.Profiled := by
  intro event member
  simp only [firstMessage, List.mem_cons, List.not_mem_nil, or_false] at member
  rcases member with rfl | rfl
  · trivial
  · rfl

end FireChat.Inbox
