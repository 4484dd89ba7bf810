import FireChat.Chat
import FireChat.Inbox
import FireChat.NewMessage

/-! The row methods of the chat screen and of the inbox, and when their views read the
row count. A view may ask for a row between any two events of its screen. -/

namespace FireChat

namespace ChatController

def numberOfItemsInSection (controller : ChatController) : Nat := controller.messages.length

/-- The item that the completion of `fetchMessages` scrolls to. -/
def lastItem (controller : ChatController) : Int := controller.messages.length - 1

end ChatController

namespace ConversationsController

def numberOfRowsInSection (controller : ConversationsController) : Nat := controller.conversations.length

/-- The user whose chat a tap on a row opens. -/
def didSelectRowAt (controller : ConversationsController) (row : Nat) : Option User :=
  controller.conversations[row]?.map Conversation.user

end ConversationsController

namespace ChatRows

structure State where
  fetched : List Message
  controller : ChatController
  collectionView : Table

/-- `viewDidLoad` -/
def initial : State := ⟨[], ⟨[]⟩, .empty⟩

/-- A snapshot is its changes, one after the other. -/
inductive Event where
  | change (delivered : Delivered)
  | cellForItemAt (row : Nat)
  | sizeForItemAt (row : Nat)

def State.reloadData (state : State) : State :=
  { state with collectionView := state.collectionView.reloadData state.controller.numberOfItemsInSection }

def State.scrollToItem (state : State) (item : Int) : State :=
  { state with collectionView := state.collectionView.scrollToItem item }

def step (currentUid : String) (state : State) : Event → Option State
  | .change delivered =>
    let (fetched, report) := Service.fetchMessages currentUid state.fetched delivered
    let state := { state with fetched }
    match report with
    | none => some state
    | some messages =>
      let controller := state.controller.fetchMessages (some messages)
      some ({ state with controller }.reloadData.scrollToItem controller.lastItem)
  | .cellForItemAt row | .sizeForItemAt row =>
    (state.collectionView.ask row state.controller.messages.length).map fun collectionView => { state with collectionView }

abbrev run (currentUid : String) := Transition.run (step currentUid)

end ChatRows

namespace InboxRows

structure State where
  inbox : Inbox.State
  tableView : Table

def viewDidLoad (restored : Option String) : State := ⟨Inbox.viewDidLoad restored, .empty⟩

inductive Event where
  | inbox (event : Inbox.Event)
  | cellForRowAt (row : Nat)
  | didSelectRowAt (row : Nat)

/-- Only a lookup that finds a document reaches the completion, which reloads the table. -/
def reloads : Inbox.Event → Bool
  | .reply _ _ dictionary => (Service.fetchUser dictionary).isSome
  | _ => false

def step (state : State) : Event → Option State
  | .inbox event => do
    let inbox ← Inbox.step state.inbox event
    if reloads event then
      some ⟨inbox, state.tableView.reloadData inbox.controller.numberOfRowsInSection⟩
    else some { state with inbox }
  | .cellForRowAt row | .didSelectRowAt row =>
    (state.tableView.ask row state.inbox.controller.conversations.length).map fun tableView => { state with tableView }

abbrev run := Transition.run step

end InboxRows

namespace Search

def State.tableView (state : State) : Table := ⟨state.reported, state.accesses⟩

end Search

end FireChat
