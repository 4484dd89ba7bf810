import FireChat.App
import FireChat.Proofs.Registration

/-! Two runs that differ in the passwords typed. Blanking passwords commutes with
every step, so the two runs agree on all but the profiles' password fields. -/

namespace FireChat

def RegistrationCredentials.redact (credentials : RegistrationCredentials) : RegistrationCredentials :=
  { credentials with password := "" }

def Fields.redact (data : Fields) : Fields := AList.replace "password" (.string "") data

theorem data_redact (credentials : RegistrationCredentials) (profileImageUrl uid : String) :
    (credentials.data profileImageUrl uid).redact = credentials.redact.data profileImageUrl uid := by
  apply AList.ext
  simp [Fields.redact, AList.replace, List.kreplace, List.lookmap, List.lookmap.go, RegistrationCredentials.data,
    RegistrationCredentials.redact]

theorem handleRegistration_redact (lowercased : String → String) (controller : RegistrationController) :
    controller.redact.handleRegistration lowercased =
      (controller.handleRegistration lowercased).map RegistrationCredentials.redact := by
  obtain ⟨email, password, fullname, username, profileImage⟩ := controller
  cases email <;> cases password <;> cases fullname <;> cases username <;> cases profileImage <;> rfl

theorem credentials_of_redact {first second : RegistrationCredentials} (same : first.redact = second.redact)
    (password : first.password = second.password) : first = second := by
  cases first
  cases second
  simp_all [RegistrationCredentials.redact]

namespace Registration

def Run.redact (run : Run) : Run := { run with credentials := run.credentials.redact }

def State.redact (state : State) : State where
  accounts := state.accounts
  users := fun uid => (state.users uid).map Fields.redact
  runs := state.runs.map Run.redact

private theorem callback_redact (run : Run) (answer : Answer) :
    run.redact.callback answer = (run.callback answer).map Run.redact := by
  obtain ⟨client, credentials, waiting, account, completions⟩ := run
  cases waiting with
  | none => rfl
  | some call =>
    cases call <;> cases answer with
    | putData error | setData error => cases error <;> rfl
    | downloadURL url => cases url <;> rfl
    | createUser result => cases result <;> rfl

private theorem users_redact (run : Run) (answer : Answer) (users : String → Option Fields) :
    run.redact.users answer (fun uid => (users uid).map Fields.redact) =
      fun uid => (run.users answer users uid).map Fields.redact := by
  obtain ⟨client, credentials, waiting, account, completions⟩ := run
  cases waiting with
  | none => rfl
  | some call =>
    cases call with
    | putData | downloadURL | createUser _ => rfl
    | setData account =>
      cases answer with
      | putData _ | downloadURL _ | createUser _ => rfl
      | setData error =>
        cases error with
        | some error => rfl
        | none =>
          funext uid
          simp only [Run.users, Run.redact, Function.update_apply]
          split
          · exact congrArg some (data_redact ..).symm
          · rfl

theorem step_redact (lowercased : String → String) (state : State) (event : Event) :
    step lowercased state.redact event.redact = (step lowercased state event).map State.redact := by
  cases event with
  | handleRegistration client controller =>
    simp only [step, Event.redact, handleRegistration_redact]
    cases controller.handleRegistration lowercased with
    | none => rfl
    | some credentials => simp [State.redact, AuthService.createUser, Run.redact, RegistrationCredentials.redact]
  | answer number answer =>
    simp only [step, Event.redact, State.redact, List.getElem?_map]
    cases found : state.runs[number]? with
    | none => rfl
    | some run =>
      simp only [Option.map_some, Option.bind_eq_bind, Option.bind_some, callback_redact]
      cases called : run.callback answer with
      | none => rfl
      | some next =>
        cases lawful : answer.accounts state.accounts with
        | none => rfl
        | some accounts => simp [users_redact, List.map_set, State.redact]

variable {lowercased : String → String} {state next : State} {event : Event} {events : List Event}

theorem Step.credentials (stepped : Step lowercased state event next) :
    next.runs.map Run.credentials = state.runs.map Run.credentials ++ event.credentials lowercased := by
  cases stepped with
  | ignored incomplete => simp [Event.credentials, incomplete]
  | begun complete => simp [Event.credentials, complete, AuthService.createUser]
  | @answered number answer run updated accounts found called lawful =>
    have same : updated.credentials = run.credentials := by
      cases called with
      | putData | setData => rename_i error _; cases error <;> rfl
      | downloadURL => rename_i url _; cases url <;> rfl
      | created | refused => rfl
    exact (Slots.map_set found Run.credentials same).trans (List.append_nil _).symm

theorem run_credentials (ran : run lowercased initial events = some state) :
    state.runs.map Run.credentials = events.flatMap (Event.credentials lowercased) := by
  have extended : ∀ past state event next, List.map Run.credentials (State.runs state) =
      List.flatMap (Event.credentials lowercased) past → True → step lowercased state event = some next →
      next.runs.map Run.credentials = (past ++ [event]).flatMap (Event.credentials lowercased) := by
    intro past state event next held _ stepped
    rw [(Step.of_step stepped).credentials, held]
    simp
  exact Transition.run_history extended rfl (fun _ _ => trivial) ran

private theorem called_succeeded {run updated : Run} {answer : Answer} (called : Run.Called run answer updated) :
    updated.succeeded = some () ↔ run.succeeded = some () ∨ answer = .setData none := by
  have reported : ∀ run : Run, run.succeeded = some () ↔ none ∈ run.completions := by
    intro run
    simp [Run.succeeded]
  rw [reported, reported]
  cases called with
  | putData =>
    rename_i error _
    cases error <;> simp [Run.putData, Run.complete, Run.stop, Run.call]
  | downloadURL =>
    rename_i url _
    cases url <;> simp [Run.downloadURL, Run.stop, Run.call]
  | created => simp [Run.createUser, Run.call]
  | refused => simp [Run.createUser, Run.complete, Run.stop]
  | setData => simp [Run.setData, Run.complete, Run.stop, eq_comm]

theorem run_accepted (ran : run lowercased initial events = some state) (number : Nat) :
    .answer number (.setData none) ∈ events ↔ state.runs[number]?.bind Run.succeeded = some () := by
  have keeps : ∀ past (state : State) event next,
      (Event.answer number (.setData none) ∈ past ↔ state.runs[number]?.bind Run.succeeded = some ()) → True →
      step lowercased state event = some next →
      (.answer number (.setData none) ∈ past ++ [event] ↔ next.runs[number]?.bind Run.succeeded = some ()) := by
    intro past state event next held _ stepped
    rw [List.mem_append, List.mem_singleton, held]
    cases Step.of_step stepped with
    | ignored => simp
    | begun => simp [Slots.bind_append _ Run.succeeded (rfl : (AuthService.createUser _ _).succeeded = none)]
    | @answered other answer run updated accounts found called lawful =>
      rw [Slots.bind_set found]
      split
      next here => subst here; simp [called_succeeded called, found, eq_comm]
      next elsewhere => simp [Ne.symm elsewhere]
  have start : Event.answer number (.setData none) ∈ [] ↔ initial.runs[number]?.bind Run.succeeded = some () := by
    simp [initial]
  exact Transition.run_history keeps start (fun _ _ => trivial) ran

private theorem Run.Sound.account {run : Run} (sound : run.Sound) (succeeded : run.succeeded = some ()) :
    ∃ account, run.account = some account := by
  have reported : none ∈ run.completions := by simpa [Run.succeeded] using succeeded
  apply Option.ne_none_iff_exists'.mp
  intro absent
  unfold Run.Sound at sound
  split at sound
  next => simp [sound.2] at reported
  next => simp [sound.2] at reported
  next => simp [sound.2] at reported
  next => simp [sound.2] at reported
  next => exact sound.2.1 absent reported

private theorem stored_of_succeeded {run : Run} {account : Account} (succeeded : run.succeeded = some ())
    (created : run.account = some account) :
    run.stored = some (account.uid, run.credentials.data account.profileImageUrl account.uid) := by
  have reported : none ∈ run.completions := by simpa [Run.succeeded] using succeeded
  simp [Run.stored, reported, created]

private theorem succeeded_of_stored {run : Run} {uid : String} {data : Fields} (stored : run.stored = some (uid, data)) :
    run.succeeded = some () ∧ ∃ account, run.account = some account := by
  obtain ⟨reported, _, created, _⟩ := Run.stored_eq_some.mp stored
  exact ⟨by simp [Run.succeeded, reported], _, created⟩

theorem run_of_redact {state other : State} (same : state.redact = other.redact) {number : Nat} {run : Run}
    (found : state.runs[number]? = some run) : ∃ run', other.runs[number]? = some run' ∧ run.redact = run'.redact := by
  have runs : state.runs.map Run.redact = other.runs.map Run.redact := congrArg State.runs same
  have held : (other.runs[number]?).map Run.redact = some run.redact := by
    rw [← List.getElem?_map, ← runs, List.getElem?_map, found]
    rfl
  obtain ⟨run', there, equal⟩ := Option.map_eq_some_iff.mp held
  exact ⟨run', there, equal.symm⟩

private theorem Sound.users_of_run (sound : Sound state) {number : Nat} {run : Run} {account : Account}
    (found : state.runs[number]? = some run) (succeeded : run.succeeded = some ()) (created : run.account = some account) :
    state.users account.uid = some (run.credentials.data account.profileImageUrl account.uid) := by
  refine (sound.users ..).mpr ⟨number, ?_⟩
  rw [State.storedBy, found, Option.bind_some, stored_of_succeeded succeeded created]

/-- States that agree up to passwords have the same profiles exactly when their
successful runs have the same passwords. -/
theorem users_eq_iff {state other : State} (sound : Sound state) (sound' : Sound other) (same : state.redact = other.redact) :
    state.users = other.users ↔
      ∀ (number : Nat) (run run' : Run), state.runs[number]? = some run → other.runs[number]? = some run' →
        run.succeeded = some () → run.credentials.password = run'.credentials.password := by
  refine ⟨?_, ?_⟩
  · intro equal number run run' found found' succeeded
    obtain ⟨paired, there, alike⟩ := run_of_redact same found
    obtain rfl := Option.some.inj (there.symm.trans found')
    obtain ⟨account, created⟩ := (sound.runs run (List.mem_of_getElem? found)).account succeeded
    have created' : paired.account = some account := (congrArg Run.account alike).symm.trans created
    have succeeded' : paired.succeeded = some () := (congrArg Run.succeeded alike).symm.trans succeeded
    have profile := sound.users_of_run found succeeded created
    rw [equal, sound'.users_of_run found' succeeded' created'] at profile
    have password := congrArg (Fields.string? · "password") (Option.some.inj profile)
    exact (Option.some.inj password).symm
  · intro passwords
    funext uid
    have shape : (state.users uid).map Fields.redact = (other.users uid).map Fields.redact :=
      congrFun (congrArg State.users same) uid
    cases held : state.users uid with
    | none =>
      rw [held] at shape
      exact (Option.map_eq_none_iff.mp shape.symm).symm
    | some data =>
      obtain ⟨number, stored⟩ := (sound.users uid data).mp held
      obtain ⟨run, found, stored⟩ := Option.bind_eq_some_iff.mp stored
      obtain ⟨succeeded, account, created⟩ := succeeded_of_stored stored
      rw [stored_of_succeeded succeeded created] at stored
      cases stored
      obtain ⟨run', found', alike⟩ := run_of_redact same found
      have created' : run'.account = some account := (congrArg Run.account alike).symm.trans created
      have succeeded' : run'.succeeded = some () := (congrArg Run.succeeded alike).symm.trans succeeded
      have credentials := credentials_of_redact (congrArg Run.credentials alike) (passwords number run run' found found' succeeded)
      rw [sound'.users_of_run found' succeeded' created', credentials]

end Registration

end FireChat
