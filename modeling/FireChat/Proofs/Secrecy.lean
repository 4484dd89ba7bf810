import FireChat.Proofs.Passwords

/-! What Firestore holds against the passwords typed anywhere in the app. Logins and
sends are independent of them; a profile carries its user's. -/

namespace FireChat

def Login.redact (login : Login) : Login := { login with password := "" }

namespace App

def State.redact (state : State) : State :=
  { state with logins := state.logins.map Login.redact, registration := state.registration.redact }

variable {lowercased : String → String} {verdict : Nat → Write → Option NSError}

private theorem signedUp_redact (state : State) (event : Registration.Event) :
    state.redact.signedUp event.redact = state.signedUp event := by
  cases event with
  | handleRegistration client controller => rfl
  | answer number answer =>
    cases answer with
    | putData error | downloadURL url | setData error => rfl
    | createUser result =>
      cases result with
      | error error => rfl
      | ok uid =>
        simp only [State.signedUp, Registration.Event.redact, State.redact, Registration.State.redact, List.getElem?_map]
        cases state.registration.runs[number]? <;> rfl

private theorem handleLogin_redact (client : Nat) (email password : Option String) :
    LoginController.handleLogin client email (password.map fun _ => "") =
      (LoginController.handleLogin client email password).map Login.redact := by
  cases email <;> cases password <;> rfl

private theorem deliver_redact (state : State) (event : Delivery.Event) :
    state.redact.deliver verdict event = (state.deliver verdict event).map State.redact := by
  simp only [State.deliver, Option.map_map]
  rfl

private theorem step_redact (state : State) (event : Event) :
    step lowercased verdict state.redact event.redact = (step lowercased verdict state event).map State.redact := by
  cases event with
  | registration event =>
    have moved : Registration.step lowercased state.redact.registration event.redact =
        (Registration.step lowercased state.registration event).map Registration.State.redact :=
      Registration.step_redact lowercased state.registration event
    simp only [step, Event.redact, moved, signedUp_redact, Option.map_map]
    rfl
  | handleLogin client email password =>
    simp only [step, Event.redact, handleLogin_redact]
    cases LoginController.handleLogin client email password with
    | none => rfl
    | some login => simp [State.redact]
  | logUserIn number result =>
    simp only [step, Event.redact, State.redact, List.getElem?_map]
    cases state.logins[number]? with
    | none => rfl
    | some login =>
      obtain ⟨client, email, password, waiting⟩ := login
      cases waiting with
      | false => rfl
      | true => cases result <;> simp [Login.redact, State.redact, List.map_set]
  | logout client => rfl
  | uploadMessage client message user now => exact deliver_redact ..
  | answer call write => exact deliver_redact ..
  | callback call write => exact deliver_redact ..

/-- Two runs that differ in passwords only reach states that do. -/
private theorem redacted_eq {first second : List Event} {state other : State} (same : SameButPasswords first second)
    (ran : run lowercased verdict initial first = some state) (ran' : run lowercased verdict initial second = some other) :
    state.redact = other.redact := by
  have redacted : ∀ {events : List Event} {final : State}, run lowercased verdict initial events = some final →
      run lowercased verdict initial.redact (events.map Event.redact) = some final.redact := by
    intro events final ran
    exact (Transition.run_map State.redact Event.redact step_redact initial events).trans
      (congrArg (Option.map State.redact) ran)
  have one := redacted ran
  rw [same] at one
  exact Option.some.inj (one.symm.trans (redacted ran'))

private theorem registration_ran {events : List Event} {state : State}
    (ran : run lowercased verdict initial events = some state) :
    Registration.run lowercased Registration.initial (events.flatMap Event.registrations) = some state.registration := by
  refine Transition.run_component State.registration Event.registrations ?_ ran
  intro state event next stepped
  cases event with
  | registration event =>
    obtain ⟨registration, moved, rfl⟩ := Option.map_eq_some_iff.mp stepped
    exact Transition.run_cons.mpr ⟨registration, moved, rfl⟩
  | handleLogin client email password =>
    simp only [step] at stepped
    split at stepped <;> cases stepped <;> rfl
  | logUserIn number result =>
    obtain ⟨login, _, rest⟩ := Option.bind_eq_some_iff.mp stepped
    split at rest
    · split at rest <;> cases rest <;> rfl
    · cases rest
  | logout client => cases stepped; rfl
  | uploadMessage client message user now =>
    obtain ⟨delivery, _, rfl⟩ := Option.map_eq_some_iff.mp stepped
    rfl
  | answer call write | callback call write =>
    obtain ⟨delivery, _, rfl⟩ := Option.map_eq_some_iff.mp stepped
    rfl

private theorem passwords_eq {events : List Event} {state : State}
    (ran : run lowercased verdict initial events = some state) :
    passwords lowercased events = state.registration.runs.map fun run => run.credentials.password := by
  rw [passwords, ← Registration.run_credentials (registration_ran ran), List.map_map]
  rfl

/-- No message, delivered or on its way, depends on a password. -/
theorem messages_eq {first second : List Event} {state other : State} (same : SameButPasswords first second)
    (ran : run lowercased verdict initial first = some state) (ran' : run lowercased verdict initial second = some other) :
    state.delivery = other.delivery := by
  have redacted : state.redact.delivery = other.redact.delivery := congrArg State.delivery (redacted_eq same ran ran')
  exact redacted

/-- Two runs that differ in nothing but the passwords typed leave the same contents
in Firestore exactly when the passwords are the same, too, for every registration
whose profile Firestore accepts. -/
theorem contents_eq_iff {first second : List Event} {state other : State} (same : SameButPasswords first second)
    (ran : run lowercased verdict initial first = some state) (ran' : run lowercased verdict initial second = some other) :
    state.contents = other.contents ↔
      ∀ number, ProfileAccepted first number → (passwords lowercased first)[number]? = (passwords lowercased second)[number]? := by
  have redacted := redacted_eq same ran ran'
  have messages := messages_eq same ran ran'
  have registrations : state.registration.redact = other.registration.redact := congrArg State.registration redacted
  have users := Registration.users_eq_iff (Registration.run_sound (registration_ran ran))
    (Registration.run_sound (registration_ran ran')) registrations
  have contents : state.contents = other.contents ↔ state.registration.users = other.registration.users := by
    simp [State.contents, messages]
  rw [contents, users, passwords_eq ran, passwords_eq ran']
  simp only [List.getElem?_map, ProfileAccepted, Registration.run_accepted (registration_ran ran), Option.bind_eq_some_iff]
  refine ⟨?_, ?_⟩
  · intro equal number ⟨run, found, succeeded⟩
    obtain ⟨run', found', _⟩ := Registration.run_of_redact registrations found
    rw [found, found']
    exact congrArg some (equal number run run' found found' succeeded)
  · intro equal number run run' found found' succeeded
    have passwords := equal number ⟨run, found, succeeded⟩
    rw [found, found'] at passwords
    exact Option.some.inj passwords

/-- Ann registers, sends Bob a message, and logs in on a second device. -/
def annSession (registered typed : String) : List Event :=
  [.registration (.handleRegistration 0 ⟨some "ann@mail", some registered, some "Ann", some "Ann", some ⟨some [255]⟩⟩),
    .registration (.answer 0 (.putData none)), .registration (.answer 0 (.downloadURL (some "https://images/1"))),
    .registration (.answer 0 (.createUser (.ok "ann"))), .registration (.answer 0 (.setData none)),
    .uploadMessage 0 "hello" ⟨"bob", "", "bob", "Bob", "bob@mail"⟩ ⟨1, 0⟩, .answer 0 .sent,
    .handleLogin 1 (some "ann@mail") (some typed), .logUserIn 0 (.ok "ann")]

/-- What is typed at the login is in no document. -/
theorem login_password_unseen :
    ∃ state other, run String.toLower Delivery.accepts initial (annSession "secret" "secret") = some state ∧
      run String.toLower Delivery.accepts initial (annSession "secret" "guess") = some other ∧
      state.contents = other.contents := by
  have same : SameButPasswords (annSession "secret" "secret") (annSession "secret" "guess") := rfl
  have equal := contents_eq_iff same
    (rfl : run String.toLower Delivery.accepts initial (annSession "secret" "secret") = some _)
    (rfl : run String.toLower Delivery.accepts initial (annSession "secret" "guess") = some _)
  exact ⟨_, _, rfl, rfl, equal.mpr fun _ _ => rfl⟩

/-- What is typed at the registration is in Ann's profile. -/
theorem registered_password_seen :
    ∃ state other, SameButPasswords (annSession "secret" "secret") (annSession "hunter2" "secret") ∧
      run String.toLower Delivery.accepts initial (annSession "secret" "secret") = some state ∧
      run String.toLower Delivery.accepts initial (annSession "hunter2" "secret") = some other ∧
      state.contents ≠ other.contents := by
  refine ⟨_, _, rfl, rfl, rfl, ?_⟩
  intro same
  have password := congrArg (fun contents => (contents.1 "ann").bind (Fields.string? · "password")) same
  exact absurd (password : some "secret" = some "hunter2") (by decide)

end App

end FireChat
