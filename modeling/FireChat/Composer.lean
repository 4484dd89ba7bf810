import FireChat.Library.Draft
import FireChat.Service

/-! The composer of a chat screen. A tap on Send reads the text, and the completion of
the upload clears it, at any later moment and whatever it holds by then. -/

namespace FireChat

/-- A text view that is set to nil holds the empty text. -/
structure CustomInputAccessoryView where
  messageInputTextView : String
  placeholderIsHidden : Bool
deriving DecidableEq, Repr

namespace CustomInputAccessoryView

def init : CustomInputAccessoryView := ⟨"", false⟩

def clearMessageText (_ : CustomInputAccessoryView) : CustomInputAccessoryView where
  messageInputTextView := ""
  placeholderIsHidden := false

def handleTextInputChange (view : CustomInputAccessoryView) : CustomInputAccessoryView :=
  { view with placeholderIsHidden := !view.messageInputTextView.isEmpty }

/-- The user appends to the text. -/
def type (view : CustomInputAccessoryView) (chunk : String) : CustomInputAccessoryView :=
  handleTextInputChange { view with messageInputTextView := view.messageInputTextView ++ chunk }

/-- What a tap on Send hands to the delegate. -/
def handleSendMessage (view : CustomInputAccessoryView) : String := view.messageInputTextView

end CustomInputAccessoryView

/-- The completion that `inputView(_:wantsToSendMessage:)` passes. -/
def ChatController.inputViewCompletion (view : CustomInputAccessoryView) (error : Option NSError) : CustomInputAccessoryView :=
  if ChatController.clearsMessageText error then view.clearMessageText else view

namespace Composer

/-- A call of `uploadMessage`, with whether its completion is still to come. -/
structure Sending where
  request : Request
  pending : Bool
deriving DecidableEq, Repr

structure State where
  inputView : CustomInputAccessoryView
  sendings : List Sending
deriving DecidableEq, Repr

def initial : State := ⟨.init, []⟩

inductive Event where
  | type (chunk : String)
  | handleSendMessage (now : Timestamp)
  | completion (number : Nat) (error : Option NSError)

def step (currentUid : String) (user : User) (state : State) : Event → Option State
  | .type chunk => some { state with inputView := state.inputView.type chunk }
  | .handleSendMessage now =>
    match Service.uploadMessage (some currentUid) state.inputView.handleSendMessage user now with
    | none => some state
    | some upload => some { state with sendings := state.sendings ++ [⟨upload.request, true⟩] }
  | .completion number error => do
    let sending ← state.sendings[number]?
    if sending.pending then
      some
        { sendings := state.sendings.set number { sending with pending := false }
          inputView := ChatController.inputViewCompletion state.inputView error }
    else none

abbrev run (currentUid : String) (user : User) := Transition.run (step currentUid user)

def Event.chunk : Event → String
  | .type chunk => chunk
  | _ => ""

/-- The texts sent, in the order of the taps, and the text left are together what was typed. -/
def State.Kept (state : State) (events : List Event) : Prop :=
  String.join (state.sendings.map fun sending => sending.request.message) ++ state.inputView.messageInputTextView =
    String.join (events.map Event.chunk)

instance (state : State) (events : List Event) : Decidable (state.Kept events) :=
  inferInstanceAs (Decidable (_ = _))

def State.Settled (state : State) : Prop := ∀ sending ∈ state.sendings, sending.pending = false

instance (state : State) : Decidable state.Settled :=
  inferInstanceAs (Decidable (∀ sending ∈ state.sendings, sending.pending = false))

def Event.Succeeds : Event → Prop
  | .completion _ error => error = none
  | _ => True

def Event.blank : Event → Event
  | .type _ => .type ""
  | event => event

/-- The two runs differ in nothing but the texts typed. -/
def SameButTexts (first second : List Event) : Prop := first.map Event.blank = second.map Event.blank

/-- What an event does to the draft, when every upload succeeds. -/
def Event.draft : Event → Draft.Event Char
  | .type chunk => .typed chunk.toList
  | .handleSendMessage _ => .sent
  | .completion _ _ => .cleared

end Composer

end FireChat
