import FireChat.Model
import FireChat.Library.Replay
import FireChat.Library.Transition
import Mathlib.Data.Fintype.Basic

/-! `Service.uploadMessage` and its runs. One call issues four writes: the first
append alone, and the other three from the first one's callback. Firestore
answers issued writes in any order, and callbacks run at any later moment. -/

namespace FireChat

/-- The subcollection of summary documents beside the logs of single chats. -/
def recentMessages : String := "recent-messages"

/-- `COLLECTION_MESSAGES.document(owner).collection(name)` -/
structure Path where
  owner : String
  name : String
deriving DecidableEq, Repr

abbrev Messages := Path → Collection

/-- The four writes of one call, in the order of the source. -/
inductive Write where
  | sent
  | received
  | recentSent
  | recentReceived
deriving DecidableEq, Repr

instance : Fintype Write where
  elems := {.sent, .received, .recentSent, .recentReceived}
  complete write := by cases write <;> decide

def Write.logs : Write → Bool
  | .sent | .received => true
  | .recentSent | .recentReceived => false

inductive Status where
  | unissued
  | issued
  | answered (error : Option NSError)
  | finished (error : Option NSError)
deriving DecidableEq, Repr

/-- Firestore has yet to answer, or the answer's callback has yet to run. -/
def Status.outstanding : Status → Bool
  | .issued | .answered _ => true
  | .unissued | .finished _ => false

/-- The write was accepted, so its document is in the store. -/
def Status.landed : Status → Bool
  | .answered none | .finished none => true
  | _ => false

/-- What a completion attached to a write has been called with. -/
def Status.report : Status → List (Option NSError)
  | .finished error => [error]
  | _ => []

/-- What one call of `uploadMessage` was asked, with the time it read. -/
structure Request where
  message : String
  currentUid : String
  userUid : String
  timestamp : Timestamp
deriving DecidableEq, Repr

namespace Request

def data (request : Request) : Fields where
  entries := [⟨"text", .string request.message⟩, ⟨"fromId", .string request.currentUid⟩,
    ⟨"toId", .string request.userUid⟩, ⟨"timestamp", .timestamp request.timestamp⟩]
  nodupKeys := by simp [List.NodupKeys, List.keys]

def path (request : Request) : Write → Path
  | .sent => ⟨request.currentUid, request.userUid⟩
  | .received => ⟨request.userUid, request.currentUid⟩
  | .recentSent => ⟨request.currentUid, recentMessages⟩
  | .recentReceived => ⟨request.userUid, recentMessages⟩

def Between (request : Request) (first second : String) : Prop :=
  request.currentUid = first ∧ request.userUid = second ∨ request.currentUid = second ∧ request.userUid = first

structure Registered (registered : String → Prop) (request : Request) : Prop where
  sender : registered request.currentUid
  recipient : registered request.userUid
  distinct : request.currentUid ≠ request.userUid

instance (request : Request) (first second : String) : Decidable (request.Between first second) :=
  inferInstanceAs (Decidable (_ ∨ _))

theorem between_comm {request : Request} {first second : String} :
    request.Between first second ↔ request.Between second first := Or.comm

/-- The logs get a document of their own, the summaries the other user's document. -/
def store (request : Request) (write : Write) (number : Nat) (document : Document) (collection : Collection) : Collection :=
  match write with
  | .sent | .received => collection.addDocument number document
  | .recentSent => collection.setData request.userUid document
  | .recentReceived => collection.setData request.currentUid document

end Request

/-- `completions` lists what the caller's completion was called with. -/
structure Upload where
  request : Request
  status : Write → Status
  completions : List (Option NSError)

namespace Upload

def begin (request : Request) : Upload where
  request
  status := fun | .sent => .issued | _ => .unissued
  completions := []

/-- Firestore answers a write. Only `addDocument` was given a callback. -/
def answer (upload : Upload) (write : Write) (error : Option NSError) : Upload :=
  { upload with status := Function.update upload.status write (if write.logs then .answered error else .finished error) }

/-- The callback of an answered append. The first one drops its error and issues
the other three writes, the second one is the caller's completion. -/
def callback (upload : Upload) (write : Write) (error : Option NSError) : Upload :=
  match write with
  | .sent => { upload with status := fun | .sent => .finished error | _ => .issued }
  | .received =>
    { upload with
      status := Function.update upload.status .received (.finished error)
      completions := upload.completions ++ [error] }
  | .recentSent | .recentReceived => upload

def Settled (upload : Upload) : Prop := ∀ write, (upload.status write).outstanding = false

instance (upload : Upload) : Decidable upload.Settled :=
  inferInstanceAs (Decidable (∀ write, (upload.status write).outstanding = false))

end Upload

/-- `uploadMessage` up to its first write. Nothing happens when nobody is signed in. -/
def Service.uploadMessage (currentUser : Option String) (message : String) (user : User) (now : Timestamp) : Option Upload :=
  currentUser.map fun currentUid => .begin ⟨message, currentUid, user.uid, now⟩

/-- Whether the completion that `inputView(_:wantsToSendMessage:)` passes clears the typed text. -/
def ChatController.clearsMessageText : Option NSError → Bool
  | some _ => false
  | none => true

namespace Delivery

structure State where
  messages : Messages
  uploads : List Upload
  nextId : Nat

def initial : State := ⟨fun _ => ∅, [], 0⟩

inductive Event where
  | uploadMessage (currentUser : Option String) (message : String) (user : User) (now : Timestamp)
  | answer (call : Nat) (write : Write)
  | callback (call : Nat) (write : Write)

def State.accept (state : State) (call : Nat) (request : Request) (write : Write) : Messages :=
  Function.update state.messages (request.path write)
    (request.store write state.nextId ⟨request.data, call⟩ (state.messages (request.path write)))

/-- `verdict` chooses which writes of which call Firestore rejects, and with which error. -/
def step (verdict : Nat → Write → Option NSError) (state : State) : Event → Option State
  | .uploadMessage currentUser message user now =>
    match Service.uploadMessage currentUser message user now with
    | none => some state
    | some upload => some { state with uploads := state.uploads ++ [upload] }
  | .answer call write => do
    let upload ← state.uploads[call]?
    if upload.status write = .issued then
      some
        { messages := if verdict call write = none then state.accept call upload.request write else state.messages
          uploads := state.uploads.set call (upload.answer write (verdict call write))
          nextId := state.nextId + 1 }
    else none
  | .callback call write => do
    let upload ← state.uploads[call]?
    match upload.status write with
    | .answered error => some { state with uploads := state.uploads.set call (upload.callback write error) }
    | _ => none

abbrev run (verdict : Nat → Write → Option NSError) := Transition.run (step verdict)

def accepts : Nat → Write → Option NSError := fun _ _ => none

/-- The request of the call that an event starts, if it starts one. -/
def Event.requests : Event → List Request
  | .uploadMessage (some currentUid) message user now => [⟨message, currentUid, user.uid, now⟩]
  | _ => []

def Event.answered : Event → List (Nat × Write)
  | .answer call write => [(call, write)]
  | _ => []

/-- The owner and the partner of the summary that a call's write goes to. -/
def summaryOf (requests : List Request) : Nat × Write → Option (String × String)
  | (call, .recentSent) => requests[call]?.map fun request => (request.currentUid, request.userUid)
  | (call, .recentReceived) => requests[call]?.map fun request => (request.userUid, request.currentUid)
  | (_, .sent) | (_, .received) => none

/-- The call whose write to a summary Firestore answers last. -/
def lastWriter (events : List Event) (owner partner : String) : Option Nat :=
  (Replay.latest (summaryOf (events.flatMap Event.requests)) (some (owner, partner))
    (events.flatMap Event.answered)).map Prod.fst

def Newest (requests : List Request) (first second : String) (call : Nat) : Prop :=
  (∃ request, requests[call]? = some request ∧ request.Between first second) ∧
    ∀ (other : Nat) request, requests[other]? = some request → request.Between first second → other ≤ call

/-- Clocks are synchronised: a call that starts later carries a later time. -/
def Clocked (events : List Event) : Prop :=
  ((events.flatMap Event.requests).map Request.timestamp).Pairwise (· < ·)

instance (events : List Event) : Decidable (Clocked events) :=
  inferInstanceAs (Decidable (List.Pairwise _ _))

def Registered (registered : String → Prop) (events : List Event) : Prop :=
  ∀ request ∈ events.flatMap Event.requests, request.Registered registered

def State.log (state : State) (owner partner : String) : Collection := state.messages ⟨owner, partner⟩

def State.recent (state : State) (owner partner : String) : Option Document :=
  (state.messages ⟨owner, recentMessages⟩).document partner

def State.Settled (state : State) : Prop := ∀ upload ∈ state.uploads, upload.Settled

instance (state : State) : Decidable state.Settled :=
  inferInstanceAs (Decidable (∀ upload ∈ state.uploads, upload.Settled))

def State.requests (state : State) : List Request := state.uploads.map Upload.request

end Delivery

end FireChat
