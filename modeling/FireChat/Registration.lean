import FireChat.Firestore
import FireChat.Library.Transition

/-! `RegistrationController.handleRegistration` and `AuthService.createUser`. A run of
`createUser` waits for one service call after the other, and each callback either
makes the next call, reports to the completion or just returns. -/

namespace FireChat

/-- An image, as far as `jpegData(compressionQuality: 0.3)` encodes it. -/
structure UIImage where
  jpegData : Option (List UInt8)
deriving DecidableEq, Repr

structure RegistrationCredentials where
  email : String
  password : String
  fullname : String
  username : String
  profileImage : UIImage
deriving DecidableEq, Repr

/-- What the text fields and the photo button of the form hold. -/
structure RegistrationController where
  email : Option String
  password : Option String
  fullname : Option String
  username : Option String
  profileImage : Option UIImage
deriving DecidableEq, Repr

/-- `handleRegistration` up to its call of `createUser`. -/
def RegistrationController.handleRegistration (lowercased : String → String) (controller : RegistrationController) :
    Option RegistrationCredentials := do
  let email ← controller.email
  let password ← controller.password
  let fullname ← controller.fullname
  let username ← controller.username
  let profileImage ← controller.profileImage
  some { email, password, fullname, username := lowercased username, profileImage }

theorem RegistrationController.handleRegistration_eq_some {lowercased : String → String} {controller : RegistrationController}
    {credentials : RegistrationCredentials} :
    controller.handleRegistration lowercased = some credentials ↔
      controller.email = some credentials.email ∧ controller.password = some credentials.password ∧
        controller.fullname = some credentials.fullname ∧
        controller.username.map lowercased = some credentials.username ∧
        controller.profileImage = some credentials.profileImage := by
  obtain ⟨_, _, _, username, _⟩ := controller
  obtain ⟨_, _, _, _, _⟩ := credentials
  cases username <;> simp [handleRegistration, Option.bind_eq_some_iff, and_comm]

/-- The profile that `createUser` writes to `users/uid`. -/
def RegistrationCredentials.data (credentials : RegistrationCredentials) (profileImageUrl uid : String) : Fields where
  entries := [⟨"email", .string credentials.email⟩, ⟨"password", .string credentials.password⟩,
    ⟨"fullname", .string credentials.fullname⟩, ⟨"username", .string credentials.username⟩,
    ⟨"profileImageUrl", .string profileImageUrl⟩, ⟨"uid", .string uid⟩]
  nodupKeys := by simp [List.NodupKeys, List.keys]

namespace Registration

/-- A created account, with the URL that its profile is to carry. -/
structure Account where
  uid : String
  profileImageUrl : String
deriving DecidableEq, Repr

inductive Call where
  | putData
  | downloadURL
  | createUser (profileImageUrl : String)
  | setData (account : Account)
deriving DecidableEq, Repr

/-- What a service answers to a call. An account comes with a uid or an error, never both. -/
inductive Answer where
  | putData (error : Option NSError)
  | downloadURL (url : Option String)
  | createUser (result : Except NSError String)
  | setData (error : Option NSError)

/-- One run of `createUser`. `completions` lists what its completion was called
with, and `account` remembers the account that it has created. -/
structure Run where
  client : Nat
  credentials : RegistrationCredentials
  waiting : Option Call
  account : Option Account
  completions : List (Option NSError)

namespace Run

def call (run : Run) (next : Call) : Run := { run with waiting := some next }

def stop (run : Run) : Run := { run with waiting := none }

def complete (run : Run) (report : Option NSError) : Run := { run with completions := run.completions ++ [report] }

def putData (run : Run) : Option NSError → Run
  | some error => (run.complete (some error)).stop
  | none => run.call .downloadURL

def downloadURL (run : Run) : Option String → Run
  | some profileImageUrl => run.call (.createUser profileImageUrl)
  | none => run.stop

/-- After reporting an error the source goes on, to a guard that a missing result fails. -/
def createUser (run : Run) (profileImageUrl : String) (result : Option String) (error : Option NSError) : Run :=
  let run := match error with
    | some error => run.complete (some error)
    | none => run
  match result with
  | some uid => { run.call (.setData ⟨uid, profileImageUrl⟩) with account := some ⟨uid, profileImageUrl⟩ }
  | none => run.stop

def setData (run : Run) (error : Option NSError) : Run := (run.complete error).stop

/-- The callback of the call that the run waits for. No other answer can come. -/
def callback (run : Run) (answer : Answer) : Option Run :=
  match run.waiting, answer with
  | some .putData, .putData error => some (run.putData error)
  | some .downloadURL, .downloadURL url => some (run.downloadURL url)
  | some (.createUser profileImageUrl), .createUser (.ok uid) => some (run.createUser profileImageUrl (some uid) none)
  | some (.createUser profileImageUrl), .createUser (.error error) => some (run.createUser profileImageUrl none (some error))
  | some (.setData _), .setData error => some (run.setData error)
  | _, _ => none

end Run

end Registration

/-- `createUser` up to its first service call. An image that cannot be encoded ends the run silently. -/
def AuthService.createUser (client : Nat) (credentials : RegistrationCredentials) : Registration.Run where
  client
  credentials
  waiting := credentials.profileImage.jpegData.map fun _ => .putData
  account := none
  completions := []

namespace Registration

structure State where
  accounts : List String
  users : String → Option Fields
  runs : List Run

def initial : State := ⟨[], fun _ => none, []⟩

inductive Event where
  | handleRegistration (client : Nat) (controller : RegistrationController)
  | answer (number : Nat) (answer : Answer)

/-- The accounts after an answer, if it is one that `Auth` can give: its uids are fresh. -/
def Answer.accounts (answer : Answer) (accounts : List String) : Option (List String) :=
  match answer with
  | .createUser (.ok uid) => if uid ∈ accounts then none else some (uid :: accounts)
  | _ => some accounts

/-- The collection `users` after an answer to a run: an accepted write is stored. -/
def Run.users (run : Run) (answer : Answer) (users : String → Option Fields) : String → Option Fields :=
  match run.waiting, answer with
  | some (.setData account), .setData none =>
    Function.update users account.uid (some (run.credentials.data account.profileImageUrl account.uid))
  | _, _ => users

def step (lowercased : String → String) (state : State) : Event → Option State
  | .handleRegistration client controller =>
    match controller.handleRegistration lowercased with
    | none => some state
    | some credentials => some { state with runs := state.runs ++ [AuthService.createUser client credentials] }
  | .answer number answer => do
    let run ← state.runs[number]?
    let next ← run.callback answer
    let accounts ← answer.accounts state.accounts
    some ⟨accounts, run.users answer state.users, state.runs.set number next⟩

abbrev run (lowercased : String → String) := Transition.run (step lowercased)

def State.Settled (state : State) : Prop := ∀ run ∈ state.runs, run.waiting = none

instance (state : State) : Decidable state.Settled :=
  inferInstanceAs (Decidable (∀ run ∈ state.runs, run.waiting = none))

/-- Accounts and profiles correspond, and every run has truthfully reported once. -/
structure State.Consistent (state : State) : Prop where
  profiles : ∀ uid ∈ state.accounts, ∃ data, state.users uid = some data ∧ data.string? "uid" = some uid
  owners : ∀ uid data, state.users uid = some data → uid ∈ state.accounts
  reports : ∀ run ∈ state.runs, ∃ report, run.completions = [report] ∧
    (report = none ↔ ∃ account, run.account = some account ∧ account.uid ∈ state.accounts ∧ state.users account.uid ≠ none)

/-- The event is none that `createUser` mishandles: an image that cannot be encoded, a
missing URL, or a profile that is rejected once its account exists. -/
def Event.Handled (lowercased : String → String) : Event → Prop
  | .handleRegistration _ controller => ∀ credentials,
    controller.handleRegistration lowercased = some credentials → credentials.profileImage.jpegData ≠ none
  | .answer _ (.downloadURL url) => url ≠ none
  | .answer _ (.setData error) => error = none
  | .answer _ _ => True

end Registration

end FireChat
