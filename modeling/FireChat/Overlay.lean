import FireChat.App
import FireChat.Chat
import FireChat.Inbox
import FireChat.NewMessage

/-! The loading overlay that all screens of a device share, and the six operations that
show it. A callback clears it by calling the screen's completion, if it calls it. -/

namespace FireChat

/-- `UIViewController.hud` -/
structure JGProgressHUD where
  textLabel : Option String
  visible : Bool
deriving DecidableEq, Repr

namespace UIViewController

def showLoader (_ : JGProgressHUD) (visible : Bool) (text : Option String) : JGProgressHUD := ⟨text, visible⟩

/-- The text of `showLoader` where the caller passes none. -/
def defaultText : Option String := some "Loading"

end UIViewController

namespace Overlay

/-- What a completion tells its screen, as far as the overlay depends on it. -/
inductive Completion where
  | loaded
  | authenticated (error : Option NSError)
deriving DecidableEq, Repr

/-- An operation that has reached its service. `opening` says that the first snapshot
is still to come; a listener's array is what its closure captures. -/
inductive Task where
  | fetchConverations (opening : Bool) (lookups : List Lookup) (conversations : List Conversation)
  | fetchMessages (opening : Bool) (currentUid : String) (messages : List Message)
  | fetchUsers (waiting : Bool)
  | fetchUser (waiting : Bool)
  | handleLogin (login : Login)
  | handleRegistration (run : Registration.Run)

/-- What a service hands to a callback. A snapshot or a document is nil after an error. -/
inductive Outcome where
  | snapshot (changes : Option (List Delivered))
  | lookup (number : Nat) (dictionary : Option Fields)
  | documents (snapshot : Option (List Fields))
  | document (dictionary : Option Fields)
  | logUserIn (error : Option NSError)
  | registration (answer : Registration.Answer)

/-- The chat listener's closure on a whole snapshot, with the arguments of its completion's calls. -/
def fetchMessagesSnapshot (currentUid : String) (messages : List Message) (changes : List Delivered) :
    List Message × List (List Message) :=
  changes.foldl
    (fun (messages, reports) delivered =>
      let (messages, report) := Service.fetchMessages currentUid messages delivered
      (messages, reports ++ report.toList))
    (messages, [])

/-- One callback of a numbered task, with the calls of the completion that it makes. -/
def Task.callback (number : Nat) (currentUser : Option String) : Task → Outcome → Option (Task × List Completion)
  | .fetchConverations _ lookups conversations, .snapshot changes =>
    let started := Service.fetchConversations currentUser number (changes.getD [])
    some (.fetchConverations false (lookups ++ started) conversations, [])
  | .fetchConverations opening lookups conversations, .lookup position dictionary => do
    let lookup ← lookups[position]?
    if lookup.answered then none
    else
      let lookups := lookups.set position { lookup with answered := true }
      match Service.fetchUser dictionary with
      | none => some (.fetchConverations opening lookups conversations, [])
      | some user => some (.fetchConverations opening lookups (conversations ++ [⟨user, lookup.message⟩]), [.loaded])
  | .fetchMessages _ currentUid messages, .snapshot changes =>
    let (messages, reports) := fetchMessagesSnapshot currentUid messages (changes.getD [])
    some (.fetchMessages false currentUid messages, reports.map fun _ => .loaded)
  | .fetchUsers true, .documents snapshot =>
    some (.fetchUsers false, (Service.fetchUsers currentUser snapshot).toList.map fun _ => .loaded)
  | .fetchUser true, .document dictionary =>
    some (.fetchUser false, (Service.fetchUser dictionary).toList.map fun _ => .loaded)
  | .handleLogin login, .logUserIn error =>
    if login.waiting then some (.handleLogin { login with waiting := false }, [.authenticated error]) else none
  | .handleRegistration run, .registration answer =>
    (run.callback answer).map fun next =>
      (.handleRegistration next, (next.completions.drop run.completions.length).map .authenticated)
  | _, _ => none

/-- The first snapshot or a callback of the task is still to come. -/
def Task.outstanding : Task → Bool
  | .fetchConverations opening lookups _ => opening || lookups.any fun lookup => !lookup.answered
  | .fetchMessages opening _ _ => opening
  | .fetchUsers waiting | .fetchUser waiting => waiting
  | .handleLogin login => login.waiting
  | .handleRegistration run => run.waiting.isSome

structure State where
  hud : JGProgressHUD
  tasks : List Task

def initial : State := ⟨⟨none, false⟩, []⟩

namespace State

def showLoader (state : State) (visible : Bool) (text : Option String) : State :=
  { state with hud := UIViewController.showLoader state.hud visible text }

def start (state : State) (task : Task) : State := { state with tasks := state.tasks ++ [task] }

def fetchConverations (state : State) (currentUser : Option String) : State :=
  let state := state.showLoader true UIViewController.defaultText
  match currentUser with
  | none => state
  | some _ => state.start (.fetchConverations true [] [])

def fetchMessages (state : State) (currentUser : Option String) : State :=
  let state := state.showLoader true UIViewController.defaultText
  match currentUser with
  | none => state
  | some currentUid => state.start (.fetchMessages true currentUid [])

def fetchUsers (state : State) : State :=
  (state.showLoader true UIViewController.defaultText).start (.fetchUsers true)

/-- Of the six only this one asks who is signed in before it shows the overlay. -/
def fetchUser (state : State) (currentUser : Option String) : State :=
  match currentUser with
  | none => state
  | some _ => (state.showLoader true UIViewController.defaultText).start (.fetchUser true)

def handleLogin (state : State) (email password : Option String) : State :=
  match LoginController.handleLogin 0 email password with
  | none => state
  | some login => (state.showLoader true (some "Logging in")).start (.handleLogin login)

def handleRegistration (lowercased : String → String) (state : State) (controller : RegistrationController) : State :=
  match controller.handleRegistration lowercased with
  | none => state
  | some credentials =>
    (state.showLoader true (some "Signing You Up")).start (.handleRegistration (AuthService.createUser 0 credentials))

/-- The screen's side of a completion. Without an error, signing in or up goes on to `authenticationComplete`. -/
def complete (currentUser : Option String) (state : State) : Completion → State
  | .loaded | .authenticated (some _) => state.showLoader false UIViewController.defaultText
  | .authenticated none => (state.showLoader false UIViewController.defaultText).fetchConverations currentUser

def Idle (state : State) : Prop := ∀ task ∈ state.tasks, task.outstanding = false

instance (state : State) : Decidable state.Idle :=
  inferInstanceAs (Decidable (∀ task ∈ state.tasks, task.outstanding = false))

end State

/-- `currentUser` is the account signed in when the event runs. -/
inductive Event where
  | fetchConverations (currentUser : Option String)
  | fetchMessages (currentUser : Option String)
  | fetchUsers
  | fetchUser (currentUser : Option String)
  | handleLogin (email password : Option String)
  | handleRegistration (controller : RegistrationController)
  | callback (number : Nat) (currentUser : Option String) (outcome : Outcome)

def step (lowercased : String → String) (state : State) : Event → Option State
  | .fetchConverations currentUser => some (state.fetchConverations currentUser)
  | .fetchMessages currentUser => some (state.fetchMessages currentUser)
  | .fetchUsers => some state.fetchUsers
  | .fetchUser currentUser => some (state.fetchUser currentUser)
  | .handleLogin email password => some (state.handleLogin email password)
  | .handleRegistration controller => some (state.handleRegistration lowercased controller)
  | .callback number currentUser outcome => do
    let task ← state.tasks[number]?
    let (task, completions) ← task.callback number currentUser outcome
    some (completions.foldl (State.complete currentUser) { state with tasks := state.tasks.set number task })

abbrev run (lowercased : String → String) := Transition.run (step lowercased)

/-- The callback does not take an exit on which the task would end without ever having
called its completion, nor sign in while nobody is signed in any more. -/
def Task.Reports (currentUser : Option String) : Task → Outcome → Prop
  | .fetchConverations opening lookups conversations, .snapshot changes =>
    opening = true → changes.getD [] ≠ [] ∨ conversations ≠ [] ∨ ∃ lookup ∈ lookups, lookup.answered = false
  | .fetchConverations opening lookups conversations, .lookup position dictionary =>
    dictionary ≠ none ∨ conversations ≠ [] ∨ opening = true ∨
      ∃ other lookup, other ≠ position ∧ lookups[other]? = some lookup ∧ lookup.answered = false
  | .fetchMessages opening _ _, .snapshot changes =>
    opening = true → ∃ delivered ∈ changes.getD [], delivered.change.kind = .added
  | .fetchUsers _, .documents snapshot => snapshot ≠ none
  | .fetchUser _, .document dictionary => dictionary ≠ none
  | .handleLogin _, .logUserIn error => error = none → currentUser ≠ none
  | .handleRegistration _, .registration (.downloadURL url) => url ≠ none
  | .handleRegistration _, .registration (.setData error) => error = none → currentUser ≠ none
  | _, _ => True

/-- The event does not leave the overlay to nobody. -/
def Reports (lowercased : String → String) (state : State) : Event → Prop
  | .fetchConverations currentUser | .fetchMessages currentUser => currentUser ≠ none
  | .handleRegistration controller => ∀ credentials,
    controller.handleRegistration lowercased = some credentials → credentials.profileImage.jpegData ≠ none
  | .callback number currentUser outcome => ∀ task, state.tasks[number]? = some task → task.Reports currentUser outcome
  | .fetchUsers | .fetchUser _ | .handleLogin _ _ => True

end Overlay

end FireChat
