import FireChat.Library.Keyed
import FireChat.NewMessage
import FireChat.Proofs.Accounts
import FireChat.Proofs.Passwords

/-! The list of other users, read back from what registrations have written. Only the
first document of the signed-in user is taken out, and there is at most one. -/

namespace FireChat

/-- `getDocuments` lists each stored document once, under its id, in any order. -/
structure Listing (users : String → Option Fields) (documents : List (String × Fields)) : Prop where
  distinct : (documents.map Prod.fst).Nodup
  stored : ∀ uid data, (uid, data) ∈ documents ↔ users uid = some data

namespace Registration

/-- The run of a form has reported success, and the user is what was typed into that
form, with the username in lower case. -/
structure Registers (lowercased : String → String) (events : List Event) (run : Run) (user : User) : Prop where
  reported : none ∈ run.completions
  account : run.account = some ⟨user.uid, user.profileImageUrl⟩
  form : ∃ client controller, .handleRegistration client controller ∈ events ∧
    controller.handleRegistration lowercased = some run.credentials ∧ controller.email = some user.email ∧
    controller.fullname = some user.fullname ∧ controller.username.map lowercased = some user.username

variable {lowercased : String → String} {events : List Event} {state : State} {documents : List (String × Fields)}

theorem init_data (credentials : RegistrationCredentials) (profileImageUrl uid : String) :
    User.init (credentials.data profileImageUrl uid) =
      ⟨uid, profileImageUrl, credentials.username, credentials.fullname, credentials.email⟩ := rfl

private theorem run_form (ran : run lowercased initial events = some state) {run : Run} (member : run ∈ state.runs) :
    ∃ client controller, .handleRegistration client controller ∈ events ∧
      controller.handleRegistration lowercased = some run.credentials := by
  have typed : run.credentials ∈ events.flatMap (Event.credentials lowercased) :=
    run_credentials ran ▸ List.mem_map_of_mem member
  obtain ⟨event, started, typed⟩ := List.mem_flatMap.mp typed
  cases event with
  | handleRegistration client controller => exact ⟨client, controller, started, Option.mem_toList.mp typed⟩
  | answer number answer => cases typed

private theorem decoded_iff (ran : run lowercased initial events = some state) (user : User) :
    (∃ data, state.users user.uid = some data ∧ User.init data = user) ↔
      ∃ run ∈ state.runs, Registers lowercased events run user := by
  have sound := run_sound ran
  refine ⟨?_, ?_⟩
  · intro ⟨data, held, decoded⟩
    obtain ⟨number, stored⟩ := (sound.users ..).mp held
    obtain ⟨run, found, stored⟩ := Option.bind_eq_some_iff.mp stored
    obtain ⟨reported, profileImageUrl, created, rfl⟩ := Run.stored_eq_some.mp stored
    obtain ⟨uid, _, _, _, _⟩ := user
    rw [init_data] at decoded
    cases decoded
    have member := List.mem_of_getElem? found
    obtain ⟨client, controller, started, complete⟩ := run_form ran member
    obtain ⟨email, _, fullname, username, _⟩ := RegistrationController.handleRegistration_eq_some.mp complete
    exact ⟨run, member, reported, created, client, controller, started, complete, email, fullname, username⟩
  · intro ⟨run, member, reported, created, client, controller, started, complete, email, fullname, username⟩
    obtain ⟨number, found⟩ := List.mem_iff_getElem?.mp member
    obtain ⟨email', _, fullname', username', _⟩ := RegistrationController.handleRegistration_eq_some.mp complete
    refine ⟨run.credentials.data user.profileImageUrl user.uid, (sound.users ..).mpr ⟨number, ?_⟩, ?_⟩
    · rw [State.storedBy, found, Option.bind_some]
      exact Run.stored_eq_some.mpr ⟨reported, _, created, rfl⟩
    · rw [init_data, Option.some.inj (email'.symm.trans email), Option.some.inj (fullname'.symm.trans fullname),
        Option.some.inj (username'.symm.trans username)]

private theorem listed_uids (sound : Sound state) (listing : Listing state.users documents) :
    (documents.map fun document => User.init document.2).map User.uid = documents.map Prod.fst := by
  rw [List.map_map]
  apply List.map_congr_left
  intro ⟨uid, data⟩ member
  have held := (listing.stored uid data).mp member
  simp [User.init, sound.profile_uid held]

private theorem fetchUsers_eq (sound : Sound state) (listing : Listing state.users documents) (uid : String) :
    Service.fetchUsers (some uid) (some (documents.map Prod.snd)) =
      some ((documents.map fun document => User.init document.2).filter fun user => user.uid ≠ uid) := by
  have distinct := listed_uids sound listing ▸ listing.distinct
  have same : (fun user : User => some user.uid == some uid) = fun user => decide (user.uid = uid) := by
    funext user
    simp [beq_eq_decide]
  rw [Service.fetchUsers_some, same, ← Keyed.eraseP_eq_filter distinct uid, List.map_map]
  rfl

/-- `fetchUsers` completes with the other users, in the order of their documents:
nobody twice, and exactly those who have registered, as they did so. -/
theorem contacts_are_others (ran : run lowercased initial events = some state) (listing : Listing state.users documents)
    (uid : String) :
    ∃ users, Service.fetchUsers (some uid) (some (documents.map Prod.snd)) = some users ∧
      users.map User.uid = (documents.map Prod.fst).filter (· ≠ uid) ∧ (users.map User.uid).Nodup ∧
      ∀ user, user ∈ users ↔ user.uid ≠ uid ∧ ∃ run ∈ state.runs, Registers lowercased events run user := by
  have sound := run_sound ran
  refine ⟨_, fetchUsers_eq sound listing uid, ?_⟩
  have uids : ((documents.map fun document => User.init document.2).filter fun user => user.uid ≠ uid).map User.uid =
      (documents.map Prod.fst).filter (· ≠ uid) := by
    rw [← listed_uids sound listing]
    conv_rhs => rw [List.filter_map]
    rfl
  refine ⟨uids, ?_, ?_⟩
  · rw [uids]
    exact listing.distinct.filter _
  · intro user
    rw [List.mem_filter, decide_eq_true_eq, and_comm, ← decoded_iff ran]
    apply and_congr_right
    intro _
    rw [List.mem_map]
    refine ⟨?_, ?_⟩
    · intro ⟨⟨id, data⟩, member, decoded⟩
      have held := (listing.stored id data).mp member
      subst decoded
      have same : (User.init data).uid = id := by simp [User.init, sound.profile_uid held]
      exact ⟨data, same ▸ held, rfl⟩
    · intro ⟨data, held, decoded⟩
      exact ⟨(user.uid, data), (listing.stored ..).mpr held, decoded⟩

def profileOf (name uid : String) : Fields :=
  RegistrationCredentials.data ⟨uid ++ "@mail", "secret", name, name.toLower, ⟨some [255]⟩⟩ ("https://images/" ++ uid) uid

def registerBoth : List Event :=
  [.handleRegistration 0 ⟨some "ann@mail", some "secret", some "Ann", some "Ann", some ⟨some [255]⟩⟩,
    .handleRegistration 1 ⟨some "bob@mail", some "secret", some "Bob", some "Bob", some ⟨some [255]⟩⟩,
    .answer 0 (.putData none), .answer 1 (.putData none),
    .answer 0 (.downloadURL (some "https://images/ann")), .answer 1 (.downloadURL (some "https://images/bob")),
    .answer 0 (.createUser (.ok "ann")), .answer 1 (.createUser (.ok "bob")), .answer 0 (.setData none), .answer 1 (.setData none)]

/-- Ann and Bob have registered, and Bob lists the others. -/
theorem registered_ann_listed :
    ∃ state users, run String.toLower initial registerBoth = some state ∧
      Service.fetchUsers (some "bob") (some [profileOf "Ann" "ann", profileOf "Bob" "bob"]) = some users ∧
      users.map User.uid = ["ann"] := by
  have ran : run String.toLower initial registerBoth = some _ := rfl
  have listing : Listing (Function.update (Function.update (fun _ => none) "ann" (some (profileOf "Ann" "ann"))) "bob"
      (some (profileOf "Bob" "bob"))) [("ann", profileOf "Ann" "ann"), ("bob", profileOf "Bob" "bob")] := by
    refine ⟨by decide, ?_⟩
    intro uid data
    rw [List.mem_pair, Prod.mk.injEq, Prod.mk.injEq, Function.update_apply, Function.update_apply]
    by_cases bob : uid = "bob"
    · subst bob
      simp [eq_comm]
    · by_cases ann : uid = "ann" <;> simp [ann, bob, eq_comm]
  obtain ⟨users, fetched, uids, _⟩ := contacts_are_others ran listing "bob"
  exact ⟨_, users, ran, fetched, uids⟩

end Registration

end FireChat
