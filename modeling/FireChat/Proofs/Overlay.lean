import FireChat.Overlay
import FireChat.Proofs.Inbox

/-! While the overlay is shown, some task owes the call that clears it. A task that ends
without this call leaves the overlay to nobody. -/

namespace FireChat.Overlay

open Transition

variable {lowercased : String → String} {number : Nat} {currentUser : Option String} {task next : Task} {outcome : Outcome}
  {completions : List Completion} {state : State}

def Task.Owes : Task → Prop
  | .fetchConverations opening lookups conversations =>
    conversations = [] ∧ (opening = true ∨ ∃ lookup ∈ lookups, lookup.answered = false)
  | task => task.outstanding = true

theorem Task.Owes.outstanding (owes : task.Owes) : task.outstanding = true := by
  cases task with
  | fetchConverations opening lookups conversations => simpa [Task.outstanding] using owes.2
  | fetchMessages | fetchUsers | fetchUser | handleLogin | handleRegistration => exact owes

private theorem fetchMessagesSnapshot_append (currentUid : String) (messages : List Message) (changes : List Delivered)
    (delivered : Delivered) :
    (fetchMessagesSnapshot currentUid messages (changes ++ [delivered])).2 =
      (fetchMessagesSnapshot currentUid messages changes).2 ++
        (Service.fetchMessages currentUid (fetchMessagesSnapshot currentUid messages changes).1 delivered).2.toList := by
  simp [fetchMessagesSnapshot]

private theorem reports_eq_nil (currentUid : String) (messages : List Message) (changes : List Delivered) :
    (fetchMessagesSnapshot currentUid messages changes).2 = [] ↔ ¬ ∃ delivered ∈ changes, delivered.change.kind = .added := by
  induction changes using List.reverseRecOn with
  | nil => simp [fetchMessagesSnapshot]
  | append_singleton changes delivered ih =>
    rw [fetchMessagesSnapshot_append, List.append_eq_nil_iff, ih]
    obtain ⟨⟨kind, item, oldIndex, newIndex⟩, now⟩ := delivered
    cases kind <;> simp [Service.fetchMessages]

inductive Callback (number : Nat) (currentUser : Option String) : Task → Outcome → Task → List Completion → Prop where
  | opened {opening lookups conversations changes} : Callback number currentUser (.fetchConverations opening lookups conversations)
      (.snapshot changes)
      (.fetchConverations false (lookups ++ Service.fetchConversations currentUser number (changes.getD [])) conversations) []
  | missing {opening lookups conversations position lookup} (asked : lookups[position]? = some lookup)
      (waiting : lookup.answered = false) : Callback number currentUser (.fetchConverations opening lookups conversations)
      (.lookup position none)
      (.fetchConverations opening (lookups.set position { lookup with answered := true }) conversations) []
  | found {opening lookups conversations position lookup dictionary} (asked : lookups[position]? = some lookup)
      (waiting : lookup.answered = false) : Callback number currentUser (.fetchConverations opening lookups conversations)
      (.lookup position (some dictionary))
      (.fetchConverations opening (lookups.set position { lookup with answered := true })
        (conversations ++ [⟨User.init dictionary, lookup.message⟩])) [.loaded]
  | messages {opening currentUid messages changes} : Callback number currentUser (.fetchMessages opening currentUid messages)
      (.snapshot changes) (.fetchMessages false currentUid (fetchMessagesSnapshot currentUid messages (changes.getD [])).1)
      ((fetchMessagesSnapshot currentUid messages (changes.getD [])).2.map fun _ => .loaded)
  | users {snapshot} : Callback number currentUser (.fetchUsers true) (.documents snapshot) (.fetchUsers false)
      ((Service.fetchUsers currentUser snapshot).toList.map fun _ => .loaded)
  | user {dictionary} : Callback number currentUser (.fetchUser true) (.document dictionary) (.fetchUser false)
      ((Service.fetchUser dictionary).toList.map fun _ => .loaded)
  | login {login error} (waiting : login.waiting = true) : Callback number currentUser (.handleLogin login) (.logUserIn error)
      (.handleLogin { login with waiting := false }) [.authenticated error]
  | registration {run answer} {next : Registration.Run} (called : run.Called answer next) :
      Callback number currentUser (.handleRegistration run) (.registration answer) (.handleRegistration next)
        ((next.completions.drop run.completions.length).map .authenticated)

theorem Callback.of_callback (called : task.callback number currentUser outcome = some (next, completions)) :
    Callback number currentUser task outcome next completions := by
  unfold Task.callback at called
  split at called
  · cases called; exact .opened
  · obtain ⟨lookup, asked, rest⟩ := Option.bind_eq_some_iff.mp called
    split at rest
    · cases rest
    next waiting =>
      have waiting : lookup.answered = false := by simpa using waiting
      split at rest
      next user absent =>
        obtain rfl := Option.map_eq_none_iff.mp absent
        cases rest
        exact .missing asked waiting
      next user present =>
        obtain ⟨dictionary, rfl, rfl⟩ := Option.map_eq_some_iff.mp present
        cases rest
        exact .found asked waiting
  · cases called; exact .messages
  · cases called; exact .users
  · cases called; exact .user
  · split at called
    next waiting => cases called; exact .login waiting
    next => cases called
  · obtain ⟨after, answered, same⟩ := Option.map_eq_some_iff.mp called
    cases same
    exact .registration (.of_callback answered)
  · cases called

private theorem registration_reports {run next : Registration.Run} {answer : Registration.Answer} (called : run.Called answer next) :
    (next.completions.drop run.completions.length ≠ [] ∨ next.waiting.isSome = true ↔ answer ≠ .downloadURL none) ∧
      (none ∈ next.completions.drop run.completions.length ↔ answer = .setData none) := by
  cases called with
  | @putData error waiting =>
    cases error <;> simp [Registration.Run.putData, Registration.Run.call, Registration.Run.complete, Registration.Run.stop]
  | @downloadURL url waiting =>
    cases url <;> simp [Registration.Run.downloadURL, Registration.Run.call, Registration.Run.stop]
  | created waiting => simp [Registration.Run.createUser, Registration.Run.call]
  | refused waiting => simp [Registration.Run.createUser, Registration.Run.complete, Registration.Run.stop]
  | @setData account error waiting =>
    simp [Registration.Run.setData, Registration.Run.complete, Registration.Run.stop, eq_comm]

private theorem waiting_set {lookups : List Lookup} {position : Nat} {lookup : Lookup} (asked : lookups[position]? = some lookup) :
    (∃ current ∈ lookups.set position { lookup with answered := true }, current.answered = false) ↔
      ∃ other current, other ≠ position ∧ lookups[other]? = some current ∧ current.answered = false := by
  refine ⟨?_, ?_⟩
  · intro ⟨current, member, waiting⟩
    obtain ⟨other, held⟩ := List.mem_iff_getElem?.mp member
    rw [Slots.getElem?_set asked] at held
    split at held
    · cases held
      cases waiting
    next elsewhere => exact ⟨other, current, Ne.symm elsewhere, held, waiting⟩
  · intro ⟨other, current, elsewhere, held, waiting⟩
    refine ⟨current, ?_, waiting⟩
    apply List.mem_of_getElem?
    rw [Slots.getElem?_set asked, if_neg (Ne.symm elsewhere), held]

theorem Callback.reports_iff (called : Callback number currentUser task outcome next completions) :
    task.Reports currentUser outcome ↔
      (task.Owes → completions ≠ [] ∨ next.Owes) ∧ (.authenticated none ∈ completions → currentUser ≠ none) := by
  cases called with
  | @opened opening lookups conversations changes =>
    have started : (∃ lookup ∈ Service.fetchConversations currentUser number (changes.getD []), lookup.answered = false) ↔
        changes.getD [] ≠ [] := by
      cases changes.getD [] <;> simp [Service.fetchConversations]
    simp only [Task.Reports, Task.Owes, List.mem_append, or_and_right, exists_or, started]
    grind
  | @missing opening lookups conversations position lookup asked waiting =>
    have member := List.mem_of_getElem? asked
    simp only [Task.Reports, Task.Owes, waiting_set asked]
    grind
  | found asked waiting => simp [Task.Reports]
  | @messages opening currentUid messages changes =>
    have silent := reports_eq_nil currentUid messages (changes.getD [])
    simp only [Task.Reports, Task.Owes, Task.outstanding, ne_eq, List.map_eq_nil_iff, silent]
    simp
  | @users snapshot =>
    cases snapshot with
    | none => simp [Task.Reports, Task.Owes, Task.outstanding, Service.fetchUsers]
    | some documents => simp [Task.Reports, Service.fetchUsers_some]
  | @user dictionary => cases dictionary <;> simp [Task.Reports, Task.Owes, Task.outstanding, Service.fetchUser]
  | @login login error waiting => simp [Task.Reports, eq_comm]
  | @registration run answer next called =>
    obtain ⟨ends, signsUp⟩ := registration_reports called
    have waiting := Option.isSome_iff_ne_none.mpr called.waiting
    simp only [Task.Owes, Task.outstanding, ne_eq, List.map_eq_nil_iff, waiting, true_implies, List.mem_map,
      Completion.authenticated.injEq, exists_eq_right, signsUp] at ends ⊢
    rw [ends]
    cases called <;> simp [Task.Reports]

/-- The overlay is shown only while some task owes the call that clears it. -/
def State.Covered (state : State) : Prop := state.hud.visible = true → ∃ task ∈ state.tasks, task.Owes

private theorem covered_hidden (hidden : state.hud.visible = false) : state.Covered := by
  intro visible
  rw [hidden] at visible
  cases visible

private theorem covered_start (state : State) {task : Task} (owes : task.Owes) : (state.start task).Covered :=
  fun _ => ⟨task, List.mem_append_right _ (List.mem_singleton_self task), owes⟩

private theorem covered_fetchConverations (state : State) (signedIn : currentUser ≠ none) :
    (state.fetchConverations currentUser).Covered := by
  obtain ⟨uid, rfl⟩ := Option.ne_none_iff_exists'.mp signedIn
  exact covered_start _ ⟨rfl, Or.inl rfl⟩

private theorem covered_complete (state : State) {completion : Completion}
    (signedIn : completion = .authenticated none → currentUser ≠ none) : (state.complete currentUser completion).Covered := by
  cases completion with
  | loaded => exact covered_hidden rfl
  | authenticated error =>
    cases error with
    | none => exact covered_fetchConverations _ (signedIn rfl)
    | some error => exact covered_hidden rfl

/-- Whatever the calls before it have done, the last call of a completion clears the overlay or hands it on. -/
private theorem covered_completions (state : State) (called : completions ≠ [])
    (signedIn : .authenticated none ∈ completions → currentUser ≠ none) :
    (completions.foldl (State.complete currentUser) state).Covered := by
  obtain ⟨earlier, last, rfl⟩ := (List.eq_nil_or_concat completions).resolve_left called
  rw [List.concat_eq_append, List.foldl_concat]
  apply covered_complete
  intro same
  exact signedIn (by simp [same])

private theorem covered_set (covered : state.Covered) (found : state.tasks[number]? = some task) (owes : task.Owes → next.Owes) :
    ({ state with tasks := state.tasks.set number next } : State).Covered := by
  intro visible
  obtain ⟨owing, member, owed⟩ := covered visible
  obtain ⟨other, held⟩ := List.mem_iff_getElem?.mp member
  by_cases here : number = other
  · subst here
    cases found.symm.trans held
    exact ⟨next, List.mem_of_getElem? (by rw [Slots.getElem?_set found, if_pos rfl]), owes owed⟩
  · exact ⟨owing, List.mem_of_getElem? (by rw [Slots.getElem?_set found, if_neg here, held]), owed⟩

private theorem covered_callback (covered : state.Covered) (found : state.tasks[number]? = some task)
    (called : Callback number currentUser task outcome next completions) (reports : task.Reports currentUser outcome) :
    (completions.foldl (State.complete currentUser) { state with tasks := state.tasks.set number next }).Covered := by
  obtain ⟨owing, signedIn⟩ := called.reports_iff.mp reports
  by_cases silent : completions = []
  · subst silent
    apply covered_set covered found
    intro owes
    exact (owing owes).resolve_left fun called => called rfl
  · exact covered_completions _ silent signedIn

private theorem covered_step (covered : state.Covered) {event : Event} {after : State}
    (stepped : step lowercased state event = some after) (reports : Reports lowercased state event) : after.Covered := by
  cases event with
  | fetchConverations currentUser =>
    cases stepped
    exact covered_fetchConverations state reports
  | fetchMessages currentUser =>
    cases stepped
    obtain ⟨currentUid, rfl⟩ := Option.ne_none_iff_exists'.mp reports
    exact covered_start _ rfl
  | fetchUsers =>
    cases stepped
    exact covered_start _ rfl
  | fetchUser currentUser =>
    cases stepped
    cases currentUser with
    | none => exact covered
    | some uid => exact covered_start _ rfl
  | handleLogin email password =>
    cases stepped
    unfold State.handleLogin
    cases begun : LoginController.handleLogin 0 email password with
    | none => exact covered
    | some login =>
      simp only [LoginController.handleLogin, Option.bind_eq_bind, Option.bind_eq_some_iff] at begun
      obtain ⟨_, _, _, _, same⟩ := begun
      cases same
      exact covered_start _ rfl
  | handleRegistration controller =>
    cases stepped
    unfold State.handleRegistration
    cases complete : controller.handleRegistration lowercased with
    | none => exact covered
    | some credentials =>
      obtain ⟨data, encoded⟩ := Option.ne_none_iff_exists'.mp (reports credentials complete)
      apply covered_start
      simp [Task.Owes, Task.outstanding, AuthService.createUser, encoded]
  | callback number currentUser outcome =>
    obtain ⟨task, found, rest⟩ := Option.bind_eq_some_iff.mp stepped
    obtain ⟨⟨next, completions⟩, called, rest⟩ := Option.bind_eq_some_iff.mp rest
    cases rest
    exact covered_callback covered found (.of_callback called) (reports task found)

/-- In a run no step of which takes an exit that forgets the completion, the overlay is
hidden whenever nothing is outstanding. -/
theorem hidden_when_idle {events : List Event} (ran : run lowercased initial events = some state)
    (reports : Stepwise (step lowercased) (Reports lowercased) initial events) (idle : state.Idle) :
    state.hud.visible = false := by
  have covered : state.Covered := stepwise_invariant (fun _ _ _ covered met stepped => covered_step covered stepped met)
    (covered_hidden rfl) reports ran
  cases visible : state.hud.visible with
  | false => rfl
  | true =>
    obtain ⟨task, member, owes⟩ := covered visible
    exact absurd owes.outstanding (by simp [idle task member])

def signIn : List Event :=
  [.handleLogin (some "bob@x") (some "123456"), .callback 0 (some "bob") (.logUserIn none),
    .callback 1 (some "bob") (.snapshot (some [Inbox.summary .added "hello" ⟨1, 0⟩])),
    .callback 1 (some "bob") (.lookup 0 (some (Inbox.profile "ann")))]

theorem signIn_reports : Stepwise (step id) (Reports id) initial signIn := by
  refine (stepwise_cons rfl).mpr ⟨trivial, (stepwise_cons rfl).mpr ⟨?_, (stepwise_cons rfl).mpr ⟨?_,
    (stepwise_cons rfl).mpr ⟨?_, trivial⟩⟩⟩⟩
  · intro task found
    cases found
    simp [Task.Reports]
  · intro task found
    cases found
    simp [Task.Reports]
  · intro task found
    cases found
    simp [Task.Reports]

theorem signIn_hides_overlay : ∃ state, run id initial signIn = some state ∧ state.hud.visible = false :=
  ⟨_, rfl, hidden_when_idle rfl signIn_reports (by decide)⟩

/-- A new user's inbox is empty, so no conversation ever calls the completion. -/
theorem empty_inbox_keeps_overlay :
    ¬ ∀ (lowercased : String → String) (events : List Event) (state : State), run lowercased initial events = some state →
      state.tasks ≠ [] → state.Idle → state.hud.visible = false := by
  intro hidden
  have shown := hidden id [.fetchConverations (some "ann"), .callback 0 (some "ann") (.snapshot (some []))] _ rfl
    (List.cons_ne_nil _ _) (by decide)
  cases shown

end FireChat.Overlay
