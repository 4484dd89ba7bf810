import FireChat.Library.Slots
import FireChat.Registration

/-! Runs of `createUser` in any number and order. The invariant reads accounts and
profiles off the runs, so that a settled state depends on how each run has ended. -/

namespace FireChat.Registration

namespace Run

inductive Called (run : Run) : Answer → Run → Prop where
  | putData {error} (waiting : run.waiting = some .putData) : Called run (.putData error) (run.putData error)
  | downloadURL {url} (waiting : run.waiting = some .downloadURL) : Called run (.downloadURL url) (run.downloadURL url)
  | created {profileImageUrl uid} (waiting : run.waiting = some (.createUser profileImageUrl)) :
      Called run (.createUser (.ok uid)) (run.createUser profileImageUrl (some uid) none)
  | refused {profileImageUrl error} (waiting : run.waiting = some (.createUser profileImageUrl)) :
      Called run (.createUser (.error error)) (run.createUser profileImageUrl none (some error))
  | setData {account error} (waiting : run.waiting = some (.setData account)) : Called run (.setData error) (run.setData error)

variable {run next : Run} {answer : Answer}

theorem Called.of_callback (called : run.callback answer = some next) : Called run answer next := by
  unfold callback at called
  split at called
  · next waiting => cases called; exact .putData waiting
  · next waiting => cases called; exact .downloadURL waiting
  · next waiting => cases called; exact .created waiting
  · next waiting => cases called; exact .refused waiting
  · next waiting => cases called; exact .setData waiting
  · cases called

theorem Called.waiting (called : Called run answer next) : run.waiting ≠ none := by
  cases called with
  | putData waiting | downloadURL waiting | created waiting | refused waiting | setData waiting => simp [waiting]

/-- Where a run can be. A run reports at most once and only when it ends, `nil` only
with an account, and it never ends silently with one. -/
def Sound (run : Run) : Prop :=
  match run.waiting with
  | some (.setData account) => run.account = some account ∧ run.completions = []
  | some .putData | some .downloadURL | some (.createUser _) => run.account = none ∧ run.completions = []
  | none => run.completions.length ≤ 1 ∧ (run.account = none → none ∉ run.completions) ∧
      (run.account ≠ none → run.completions ≠ [])

theorem createUser_sound (client : Nat) (credentials : RegistrationCredentials) :
    (AuthService.createUser client credentials).Sound := by
  unfold AuthService.createUser
  cases credentials.profileImage.jpegData <;> simp [Sound]

theorem Sound.called (sound : run.Sound) (called : Called run answer next) : next.Sound := by
  cases called with
  | @putData error waiting =>
    simp only [Sound, waiting] at sound
    cases error <;> simp [Sound, Run.putData, call, complete, stop, sound]
  | @downloadURL url waiting =>
    simp only [Sound, waiting] at sound
    cases url <;> simp [Sound, Run.downloadURL, call, stop, sound]
  | created waiting =>
    simp only [Sound, waiting] at sound
    simp [Sound, Run.createUser, call, sound]
  | refused waiting =>
    simp only [Sound, waiting] at sound
    simp [Sound, Run.createUser, complete, stop, sound]
  | setData waiting =>
    simp only [Sound, waiting] at sound
    simp [Sound, Run.setData, complete, stop, sound]

/-- The run is over, but silent, or without the profile of its account. -/
def Stalled (run : Run) : Prop :=
  run.waiting = none ∧ (run.completions = [] ∨ run.account ≠ none ∧ none ∉ run.completions)

theorem createUser_stalled_iff (client : Nat) (credentials : RegistrationCredentials) :
    (AuthService.createUser client credentials).Stalled ↔ credentials.profileImage.jpegData = none := by
  simp [Stalled, AuthService.createUser]

theorem Sound.called_stalled_iff (sound : run.Sound) (called : Called run answer next) (lowercased : String → String)
    (number : Nat) : next.Stalled ↔ ¬ (Event.answer number answer).Handled lowercased := by
  cases called with
  | @putData error waiting =>
    simp only [Sound, waiting] at sound
    cases error <;> simp [Stalled, Run.putData, call, complete, stop, sound, Event.Handled]
  | @downloadURL url waiting =>
    simp only [Sound, waiting] at sound
    cases url <;> simp [Stalled, Run.downloadURL, call, stop, sound, Event.Handled]
  | created waiting => simp [Stalled, Run.createUser, call, Event.Handled]
  | refused waiting =>
    simp only [Sound, waiting] at sound
    simp [Stalled, Run.createUser, complete, stop, sound, Event.Handled]
  | @setData account error waiting =>
    simp only [Sound, waiting] at sound
    simp [Stalled, Run.setData, complete, stop, sound, Event.Handled, eq_comm]

def uid (run : Run) : Option String := run.account.map Account.uid

def succeeded (run : Run) : Option Unit := if none ∈ run.completions then some () else none

def stored (run : Run) : Option (String × Fields) :=
  if none ∈ run.completions then
    run.account.map fun account => (account.uid, run.credentials.data account.profileImageUrl account.uid)
  else none

theorem stored_eq_some {run : Run} {target : String} {data : Fields} :
    run.stored = some (target, data) ↔ none ∈ run.completions ∧
      ∃ profileImageUrl, run.account = some ⟨target, profileImageUrl⟩ ∧ data = run.credentials.data profileImageUrl target := by
  unfold stored
  split
  next reported =>
    rw [Option.map_eq_some_iff]
    refine ⟨?_, ?_⟩
    · intro ⟨account, created, same⟩
      cases same
      exact ⟨reported, account.profileImageUrl, created, rfl⟩
    · intro ⟨_, profileImageUrl, created, same⟩
      exact ⟨⟨target, profileImageUrl⟩, created, by rw [same]⟩
  next unreported => simp [unreported]

theorem uid_of_stored {target : String} {data : Fields} (held : run.stored = some (target, data)) : run.uid = some target := by
  obtain ⟨_, _, created, _⟩ := stored_eq_some.mp held
  simp [uid, created]

theorem stored_of_silent (silent : run.completions = []) : run.stored = none := by
  simp [stored, silent]

end Run

variable {lowercased : String → String} {state next : State} {event : Event}

inductive Step (lowercased : String → String) (state : State) : Event → State → Prop where
  | ignored {client controller} (incomplete : controller.handleRegistration lowercased = none) :
      Step lowercased state (.handleRegistration client controller) state
  | begun {client controller credentials} (complete : controller.handleRegistration lowercased = some credentials) :
      Step lowercased state (.handleRegistration client controller)
        { state with runs := state.runs ++ [AuthService.createUser client credentials] }
  | answered {number answer run next accounts} (found : state.runs[number]? = some run) (called : Run.Called run answer next)
      (lawful : answer.accounts state.accounts = some accounts) :
      Step lowercased state (.answer number answer) ⟨accounts, run.users answer state.users, state.runs.set number next⟩

theorem Step.of_step (stepped : step lowercased state event = some next) : Step lowercased state event next := by
  cases event with
  | handleRegistration client controller =>
    simp only [step] at stepped
    split at stepped
    next incomplete => cases stepped; exact .ignored incomplete
    next complete => cases stepped; exact .begun complete
  | answer number answer =>
    obtain ⟨run, found, rest⟩ := Option.bind_eq_some_iff.mp stepped
    obtain ⟨next, called, rest⟩ := Option.bind_eq_some_iff.mp rest
    obtain ⟨accounts, lawful, same⟩ := Option.bind_eq_some_iff.mp rest
    cases same
    exact .answered found (.of_callback called) lawful

def State.uidOf (state : State) (number : Nat) : Option String := state.runs[number]?.bind Run.uid

def State.storedBy (state : State) (number : Nat) : Option (String × Fields) := state.runs[number]?.bind Run.stored

structure Sound (state : State) : Prop where
  runs : ∀ run ∈ state.runs, run.Sound
  accounts : ∀ uid, uid ∈ state.accounts ↔ ∃ number, state.uidOf number = some uid
  distinct : ∀ first second uid, state.uidOf first = some uid → state.uidOf second = some uid → first = second
  users : ∀ uid data, state.users uid = some data ↔ ∃ number, state.storedBy number = some (uid, data)

theorem initial_sound : Sound initial := by
  refine ⟨?_, ?_, ?_, ?_⟩
  · intro run member
    cases member
  · intro uid
    simp [initial, State.uidOf]
  · intro first second uid held
    simp [initial, State.uidOf] at held
  · intro uid data
    simp [initial, State.storedBy]

private theorem Sound.begun (sound : Sound state) (client : Nat) (credentials : RegistrationCredentials) :
    Sound { state with runs := state.runs ++ [AuthService.createUser client credentials] } := by
  have uids := Slots.bind_append state.runs Run.uid (rfl : (AuthService.createUser client credentials).uid = none)
  have stored := Slots.bind_append state.runs Run.stored (rfl : (AuthService.createUser client credentials).stored = none)
  refine ⟨?_, ?_, ?_, ?_⟩
  · intro run member
    rcases List.mem_append.mp member with old | new
    · exact sound.runs run old
    · obtain rfl := List.mem_singleton.mp new
      exact Run.createUser_sound client credentials
  · intro uid
    simp only [State.uidOf, uids]
    exact sound.accounts uid
  · intro first second uid
    simp only [State.uidOf, uids]
    exact sound.distinct first second uid
  · intro uid data
    simp only [State.storedBy, stored]
    exact sound.users uid data

private theorem Sound.unchanged (sound : Sound state) {number : Nat} {run updated : Run}
    (found : state.runs[number]? = some run) (kept : updated.Sound) (uid : updated.uid = run.uid)
    (stored : updated.stored = run.stored) : Sound { state with runs := state.runs.set number updated } := by
  refine ⟨?_, ?_, ?_, ?_⟩
  · intro current member
    rcases List.mem_or_eq_of_mem_set member with old | rfl
    · exact sound.runs current old
    · exact kept
  · intro target
    simp only [State.uidOf, Slots.bind_set_same found Run.uid uid]
    exact sound.accounts target
  · intro first second target
    simp only [State.uidOf, Slots.bind_set_same found Run.uid uid]
    exact sound.distinct first second target
  · intro target data
    simp only [State.storedBy, Slots.bind_set_same found Run.stored stored]
    exact sound.users target data

private theorem Sound.created (sound : Sound state) {number : Nat} {run updated : Run} {uid : String}
    (found : state.runs[number]? = some run) (kept : updated.Sound) (none_before : run.uid = none)
    (some_after : updated.uid = some uid) (stored : updated.stored = run.stored) (fresh : uid ∉ state.accounts) :
    Sound { state with accounts := uid :: state.accounts, runs := state.runs.set number updated } := by
  have unowned : ∀ other, state.uidOf other ≠ some uid := fun other held => fresh ((sound.accounts uid).mpr ⟨other, held⟩)
  have before : state.uidOf number = none := by simp [State.uidOf, found, none_before]
  have after : ∀ other, (state.runs.set number updated)[other]?.bind Run.uid =
      if number = other then some uid else state.uidOf other := by
    intro other
    rw [Slots.bind_set found, some_after, State.uidOf]
  refine ⟨?_, ?_, ?_, ?_⟩
  · intro current member
    rcases List.mem_or_eq_of_mem_set member with old | rfl
    · exact sound.runs current old
    · exact kept
  · intro target
    simp only [State.uidOf, after, List.mem_cons]
    refine ⟨?_, ?_⟩
    · intro owned
      rcases owned with rfl | old
      · exact ⟨number, if_pos rfl⟩
      · obtain ⟨other, held⟩ := (sound.accounts target).mp old
        have different : number ≠ other := by
          intro same
          rw [← same, before] at held
          cases held
        exact ⟨other, (if_neg different).trans held⟩
    · intro ⟨other, held⟩
      split at held
      · exact Or.inl (Option.some.inj held).symm
      · exact Or.inr ((sound.accounts target).mpr ⟨other, held⟩)
  · intro first second target
    simp only [State.uidOf, after]
    intro one two
    split at one
    next here =>
      split at two
      next there => exact here.symm.trans there
      next => exact absurd (two.trans one.symm) (unowned second)
    next =>
      split at two
      next => exact absurd (one.trans two.symm) (unowned first)
      next => exact sound.distinct first second target one two
  · intro target data
    simp only [State.storedBy, Slots.bind_set_same found Run.stored stored]
    exact sound.users target data

private theorem Sound.stored (sound : Sound state) {number : Nat} {run updated : Run} {uid : String} {data : Fields}
    (found : state.runs[number]? = some run) (kept : updated.Sound) (same : updated.uid = run.uid)
    (nothing_before : run.stored = none) (written : updated.stored = some (uid, data)) :
    Sound { state with users := Function.update state.users uid (some data), runs := state.runs.set number updated } := by
  have owner : state.uidOf number = some uid := by
    rw [State.uidOf, found, Option.bind_some, ← same, Run.uid_of_stored written]
  have before : state.storedBy number = none := by simp [State.storedBy, found, nothing_before]
  have after : ∀ other, (state.runs.set number updated)[other]?.bind Run.stored =
      if number = other then some (uid, data) else state.storedBy other := by
    intro other
    rw [Slots.bind_set found, written, State.storedBy]
  have owned : ∀ {other target document}, state.storedBy other = some (target, document) → state.uidOf other = some target := by
    intro other target document held
    obtain ⟨current, present, held⟩ := Option.bind_eq_some_iff.mp held
    rw [State.uidOf, present, Option.bind_some, Run.uid_of_stored held]
  refine ⟨?_, ?_, ?_, ?_⟩
  · intro current member
    rcases List.mem_or_eq_of_mem_set member with old | rfl
    · exact sound.runs current old
    · exact kept
  · intro target
    simp only [State.uidOf, Slots.bind_set_same found Run.uid same]
    exact sound.accounts target
  · intro first second target
    simp only [State.uidOf, Slots.bind_set_same found Run.uid same]
    exact sound.distinct first second target
  · intro target document
    simp only [State.storedBy, after, Function.update_apply]
    refine ⟨?_, ?_⟩
    · intro held
      split at held
      next here =>
        cases held
        exact ⟨number, by rw [if_pos rfl, here]⟩
      next =>
        obtain ⟨other, old⟩ := (sound.users target document).mp held
        have different : number ≠ other := by
          intro same
          rw [← same, before] at old
          cases old
        exact ⟨other, (if_neg different).trans old⟩
    · intro ⟨other, held⟩
      split at held
      next => cases held; rw [if_pos rfl]
      next different =>
        have elsewhere : target ≠ uid := by
          intro same
          exact different (sound.distinct number other uid owner (same ▸ owned held))
        rw [if_neg elsewhere]
        exact (sound.users target document).mpr ⟨other, held⟩

private theorem Sound.step (sound : Sound state) (stepped : Step lowercased state event next) : Sound next := by
  cases stepped with
  | ignored => exact sound
  | begun => exact sound.begun _ _
  | @answered number answer run updated accounts found called lawful =>
    have shape := sound.runs run (List.mem_of_getElem? found)
    have kept := shape.called called
    cases called with
    | @putData error waiting =>
      cases lawful
      simp only [Run.Sound, waiting] at shape
      simp only [Run.users, waiting]
      apply sound.unchanged found kept
      · cases error <;> rfl
      · rw [Run.stored_of_silent shape.2]
        cases error <;> simp [Run.stored, Run.putData, Run.complete, Run.stop, Run.call, shape]
    | @downloadURL url waiting =>
      cases lawful
      simp only [Run.users, waiting]
      apply sound.unchanged found kept
      · cases url <;> rfl
      · cases url <;> rfl
    | @created profileImageUrl uid waiting =>
      simp only [Run.Sound, waiting] at shape
      simp only [Answer.accounts] at lawful
      split at lawful
      next => cases lawful
      next fresh =>
        cases lawful
        simp only [Run.users, waiting]
        apply sound.created found kept _ rfl _ fresh
        · simp [Run.uid, shape]
        · rw [Run.stored_of_silent shape.2, Run.stored_of_silent]
          exact shape.2
    | @refused profileImageUrl error waiting =>
      cases lawful
      simp only [Run.Sound, waiting] at shape
      simp only [Run.users, waiting]
      apply sound.unchanged found kept rfl
      rw [Run.stored_of_silent shape.2]
      simp [Run.stored, Run.createUser, Run.complete, Run.stop, shape]
    | @setData account error waiting =>
      cases lawful
      simp only [Run.Sound, waiting] at shape
      simp only [Run.users, waiting]
      cases error with
      | some error =>
        apply sound.unchanged found kept rfl
        rw [Run.stored_of_silent shape.2]
        simp [Run.stored, Run.setData, Run.complete, Run.stop, shape]
      | none =>
        apply sound.stored found kept rfl (Run.stored_of_silent shape.2)
        simp [Run.stored, Run.setData, Run.complete, Run.stop, shape]

theorem run_sound {events : List Event} (ran : run lowercased initial events = some state) : Sound state :=
  Transition.run_invariant (fun _ _ _ sound (_ : True) stepped => Sound.step sound (.of_step stepped))
    initial_sound (fun _ _ => trivial) ran

/-- Every mishandled event of a run leaves a stalled run behind, and nothing else does. -/
private theorem stalled_step {past : List Event} (sound : Sound state)
    (held : (∀ event ∈ past, event.Handled lowercased) ↔ ∀ run ∈ state.runs, ¬ run.Stalled)
    (stepped : Step lowercased state event next) :
    (∀ other ∈ past ++ [event], other.Handled lowercased) ↔ ∀ run ∈ next.runs, ¬ run.Stalled := by
  simp only [List.forall_mem_append, List.forall_mem_singleton, held]
  cases stepped with
  | ignored incomplete => simp [Event.Handled, incomplete]
  | begun complete =>
    simp only [List.forall_mem_append, List.forall_mem_singleton, Run.createUser_stalled_iff]
    simp [Event.Handled, complete]
  | @answered number answer run updated accounts found called lawful =>
    have shape := sound.runs run (List.mem_of_getElem? found)
    have busy : ¬ run.Stalled := fun stalled => called.waiting stalled.1
    rw [Slots.forall_set found busy, shape.called_stalled_iff called lowercased number, not_not]

theorem run_stalled {events : List Event} (ran : run lowercased initial events = some state) :
    (∀ event ∈ events, event.Handled lowercased) ↔ ∀ run ∈ state.runs, ¬ run.Stalled := by
  have keeps : ∀ past state event next, Sound state ∧ ((∀ event ∈ past, event.Handled lowercased) ↔
      ∀ run ∈ state.runs, ¬ run.Stalled) → True → Registration.step lowercased state event = some next →
      Sound next ∧ ((∀ other ∈ past ++ [event], other.Handled lowercased) ↔ ∀ run ∈ next.runs, ¬ run.Stalled) := by
    intro past state event next held _ stepped
    exact ⟨held.1.step (.of_step stepped), stalled_step held.1 held.2 (.of_step stepped)⟩
  have start : (∀ event ∈ ([] : List Event), event.Handled lowercased) ↔ ∀ run ∈ initial.runs, ¬ run.Stalled := by
    simp [initial]
  exact (Transition.run_history keeps ⟨initial_sound, start⟩ (fun _ _ => trivial) ran).2

end FireChat.Registration
