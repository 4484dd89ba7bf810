import FireChat.Registration
import FireChat.Service

/-! The app on any number of devices, over one `Auth` and one Firestore. The events
carry what users type and what the services answer; `verdict` has the answers to
the writes of sends. -/

namespace FireChat

/-- A login that has been handed to `Auth`. -/
structure Login where
  client : Nat
  email : String
  password : String
  waiting : Bool
deriving DecidableEq, Repr

/-- `handleLogin` up to its call of `logUserIn`, for what the two text fields hold. -/
def LoginController.handleLogin (client : Nat) (email password : Option String) : Option Login := do
  let email ← email
  let password ← password
  some ⟨client, email, password, true⟩

namespace App

/-- `currentUser` is the account that each device has signed in. -/
structure State where
  currentUser : Nat → Option String
  logins : List Login
  registration : Registration.State
  delivery : Delivery.State

def initial : State := ⟨fun _ => none, [], Registration.initial, Delivery.initial⟩

inductive Event where
  | registration (event : Registration.Event)
  | handleLogin (client : Nat) (email password : Option String)
  | logUserIn (number : Nat) (result : Except NSError String)
  | logout (client : Nat)
  | uploadMessage (client : Nat) (message : String) (user : User) (now : Timestamp)
  | answer (call : Nat) (write : Write)
  | callback (call : Nat) (write : Write)

/-- Creating an account signs the device in to it. -/
def State.signedUp (state : State) : Registration.Event → Nat → Option String
  | .answer number (.createUser (.ok uid)) =>
    match state.registration.runs[number]? with
    | some run => Function.update state.currentUser run.client (some uid)
    | none => state.currentUser
  | _ => state.currentUser

def State.deliver (verdict : Nat → Write → Option NSError) (state : State) (event : Delivery.Event) : Option State :=
  (Delivery.step verdict state.delivery event).map fun delivery => { state with delivery }

def step (lowercased : String → String) (verdict : Nat → Write → Option NSError) (state : State) : Event → Option State
  | .registration event =>
    (Registration.step lowercased state.registration event).map fun registration =>
      { state with registration, currentUser := state.signedUp event }
  | .handleLogin client email password =>
    match LoginController.handleLogin client email password with
    | none => some state
    | some login => some { state with logins := state.logins ++ [login] }
  | .logUserIn number result => do
    let login ← state.logins[number]?
    if login.waiting then
      let logins := state.logins.set number { login with waiting := false }
      match result with
      | .ok uid => some { state with logins, currentUser := Function.update state.currentUser login.client (some uid) }
      | .error _ => some { state with logins }
    else none
  | .logout client => some { state with currentUser := Function.update state.currentUser client none }
  | .uploadMessage client message user now =>
    state.deliver verdict (.uploadMessage (state.currentUser client) message user now)
  | .answer call write => state.deliver verdict (.answer call write)
  | .callback call write => state.deliver verdict (.callback call write)

abbrev run (lowercased : String → String) (verdict : Nat → Write → Option NSError) :=
  Transition.run (step lowercased verdict)

/-- Everything that Firestore holds, which other users' devices download. -/
def State.contents (state : State) : (String → Option Fields) × Messages :=
  (state.registration.users, state.delivery.messages)

end App

/-- Blanks what has been typed into the password field. -/
def RegistrationController.redact (controller : RegistrationController) : RegistrationController :=
  { controller with password := controller.password.map fun _ => "" }

namespace Registration

def Event.redact : Event → Event
  | .handleRegistration client controller => .handleRegistration client controller.redact
  | event => event

/-- The registration that an event starts, if it starts one. -/
def Event.credentials (lowercased : String → String) : Event → List RegistrationCredentials
  | .handleRegistration _ controller => (controller.handleRegistration lowercased).toList
  | _ => []

end Registration

namespace App

def Event.redact : Event → Event
  | .registration event => .registration event.redact
  | .handleLogin client email password => .handleLogin client email (password.map fun _ => "")
  | event => event

/-- The two runs differ in nothing but the passwords typed. -/
def SameButPasswords (first second : List Event) : Prop := first.map Event.redact = second.map Event.redact

def Event.registrations : Event → List Registration.Event
  | .registration event => [event]
  | _ => []

/-- The passwords of the registrations, numbered in the order they start. -/
def passwords (lowercased : String → String) (events : List Event) : List String :=
  ((events.flatMap Event.registrations).flatMap (Registration.Event.credentials lowercased)).map
    RegistrationCredentials.password

/-- Firestore accepts the profile that a numbered registration writes. -/
def ProfileAccepted (events : List Event) (number : Nat) : Prop :=
  .answer number (.setData none) ∈ events.flatMap Event.registrations

end App

end FireChat
