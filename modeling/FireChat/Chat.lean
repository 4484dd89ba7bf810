import FireChat.Listener

/-! `Service.fetchMessages` and the chat screen. The listener's closure captures an
array that only grows, and the screen shows what its completion was last handed. -/

namespace FireChat

/-- The listener's closure on one change: the captured array, and the completion's
argument if the completion is called. -/
def Service.fetchMessages (currentUid : String) (messages : List Message) (delivered : Delivered) :
    List Message × Option (List Message) :=
  match delivered.change.kind with
  | .added =>
    let messages := messages ++ [delivered.decode (some currentUid)]
    (messages, some messages)
  | .modified | .removed => (messages, none)

structure ChatController where
  messages : List Message

/-- The completion that the screen passes, where it is called. -/
def ChatController.fetchMessages (controller : ChatController) : Option (List Message) → ChatController
  | some messages => { controller with messages }
  | none => controller

namespace Chat

/-- The query result on Firestore's side, the closure's array and the screen. -/
structure State where
  result : QueryResult
  fetched : List Message
  controller : ChatController

def initial : State := ⟨.empty, [], ⟨[]⟩⟩

def State.handle (currentUid : String) (state : State) (delivered : Delivered) : State :=
  let (fetched, report) := Service.fetchMessages currentUid state.fetched delivered
  { state with fetched, controller := state.controller.fetchMessages report }

/-- One snapshot: Firestore moves to the next result and the closure runs on every change. -/
def step (currentUid : String) (state : State) (changes : List Delivered) : Option State :=
  (state.result.snapshot changes).map fun result => { changes.foldl (State.handle currentUid) state with result }

abbrev run (currentUid : String) := Transition.run (step currentUid)

/-- The screen shows the query result, in the order of the query. -/
def State.Shows (state : State) : Prop :=
  state.controller.messages.map Message.content = state.result.contents ∧ state.result.Ordered

instance (state : State) : Decidable state.Shows :=
  inferInstanceAs (Decidable (_ ∧ _))

/-- What the additions among a snapshot's changes add. -/
def additions (changes : List Delivered) : List (String × String × String) :=
  (changes.filter fun delivered => delivered.change.kind = .added).map Delivered.content

/-- The snapshot's query result is the previous one, followed by the snapshot's additions. -/
def Appends (state : State) (changes : List Delivered) : Prop :=
  ∀ next, state.result.snapshot changes = some next → next.contents = state.result.contents ++ additions changes

end Chat

end FireChat
