import FireChat.Listener

/-! One process of the app and its inbox. The controller, its listeners and the
profile lookups they start outlive a session, so sign-ins, deliveries and replies
mix freely. Every callback decodes for the account that is signed in when it runs. -/

namespace FireChat

/-- `fetchUser` has no answer to report for a user without a document. -/
def Service.fetchUser (dictionary : Option Fields) : Option User := dictionary.map User.init

/-- A profile lookup, with the message that waits for it. -/
structure Lookup where
  listener : Nat
  message : Message
  answered : Bool

/-- The listener's closure starts a lookup for every change, whatever its type. -/
def Service.fetchConversations (currentUser : Option String) (listener : Nat) (changes : List Delivered) : List Lookup :=
  changes.map fun delivered => ⟨listener, delivered.decode currentUser, false⟩

/-- The source leaves the order of the rows to Swift's dictionary. -/
structure ConversationsController where
  conversationsDictionary : AList fun _ : String => Conversation
  conversations : List Conversation

/-- The completion that `fetchConverations` passes. -/
def ConversationsController.fetchConverations (controller : ConversationsController) (conversations : List Conversation) :
    ConversationsController :=
  let conversationsDictionary :=
    Replay.replay (fun conversation => conversation.message.chatPartnerId) conversations controller.conversationsDictionary
  { conversationsDictionary, conversations := conversationsDictionary.entries.map Sigma.snd }

namespace Inbox

/-- A registered listener: whose query it is, the query's result on Firestore's
side, and the array that its closure captures. -/
structure Listener where
  uid : String
  result : QueryResult
  conversations : List Conversation

structure State where
  currentUser : Option String
  listeners : List Listener
  lookups : List Lookup
  controller : ConversationsController

/-- `fetchConverations` up to the registration. Nothing happens when nobody is signed in. -/
def State.fetchConverations (state : State) : State :=
  match state.currentUser with
  | none => state
  | some uid => { state with listeners := state.listeners ++ [⟨uid, .empty, []⟩] }

/-- `viewDidLoad`, with the account that the device still has signed in. -/
def viewDidLoad (restored : Option String) : State :=
  State.fetchConverations ⟨restored, [], [], ⟨∅, []⟩⟩

/-- `signIn` is the moment at which `Auth` has a new current user, which precedes
`authenticationComplete`. A reply carries the uid that was looked up. -/
inductive Event where
  | signIn (uid : String)
  | authenticationComplete
  | logout (thrown : Bool)
  | snapshot (listener : Nat) (owner : String) (changes : List Delivered)
  | reply (lookup : Nat) (uid : String) (dictionary : Option Fields)

def step (state : State) : Event → Option State
  | .signIn uid => some { state with currentUser := some uid }
  | .authenticationComplete => some state.fetchConverations
  | .logout thrown => some (if thrown then state else { state with currentUser := none })
  | .snapshot number owner changes => do
    let listener ← state.listeners[number]?
    let result ← listener.result.snapshot changes
    if listener.uid = owner then
      some
        { state with
          listeners := state.listeners.set number { listener with result }
          lookups := state.lookups ++ Service.fetchConversations state.currentUser number changes }
    else none
  | .reply number uid dictionary => do
    let lookup ← state.lookups[number]?
    let listener ← state.listeners[lookup.listener]?
    if lookup.answered = false ∧ lookup.message.chatPartnerId = uid then
      let lookups := state.lookups.set number { lookup with answered := true }
      match Service.fetchUser dictionary with
      | none => some { state with lookups }
      | some user =>
        let conversations := listener.conversations ++ [⟨user, lookup.message⟩]
        some
          { state with
            lookups
            listeners := state.listeners.set lookup.listener { listener with conversations }
            controller := state.controller.fetchConverations conversations }
    else none

abbrev run := Transition.run step

/-- The documents of a delivery come from the mailbox of the listener's owner. -/
def Event.Filed : Event → Prop
  | .snapshot _ owner changes =>
    ∀ delivered ∈ changes, ∃ partner, delivered.documentID = .named partner ∧
      Addressed owner partner delivered.change.item.data
  | _ => True

/-- A user's document carries the uid that it is filed under. -/
def Event.Profiled : Event → Prop
  | .reply _ uid (some dictionary) => dictionary.string? "uid" = some uid
  | _ => True

end Inbox

end FireChat
