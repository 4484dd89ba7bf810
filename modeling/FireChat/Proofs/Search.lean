import FireChat.Proofs.Contacts

/-! Searching the list of users. A result is computed when the search bar changes and
kept when the list does, and the two names are folded differently. -/

namespace FireChat

namespace Search

open Transition

variable {χ : Type} {unicode : Unicode χ} {lower : χ → χ}

/-- The text occurs in the name when letter case is ignored. -/
def OccursIn (unicode : Unicode χ) (lower : χ → χ) (text name : String) : Prop :=
  ∃ part, part <:+: unicode.characters name ∧ part.map lower = (unicode.characters text).map lower

theorem occursIn_iff {text name : String} :
    OccursIn unicode lower text name ↔ (unicode.characters text).map lower <:+: (unicode.characters name).map lower := by
  rw [List.infix_map_iff]
  simp only [OccursIn, eq_comm]

theorem occursIn_self (name : String) : OccursIn unicode lower name name := ⟨unicode.characters name, List.infix_refl _, rfl⟩

variable [DecidableEq χ] {state next : State} {event : Event}

/-- No list is there before it has arrived. -/
private def Empty (state : State) : Prop := state.waiting = true → state.controller.users = []

private theorem access_controller {row : Nat} (used : state.access row = some next) :
    next.controller = state.controller ∧ next.waiting = state.waiting := by
  unfold State.access at used
  split at used
  · cases used
    exact ⟨rfl, rfl⟩
  · cases used

private theorem Empty.step (empty : Empty state) (stepped : step unicode state event = some next) : Empty next := by
  cases event with
  | search isActive searchText => cases stepped; exact empty
  | documents currentUser snapshot =>
    simp only [Search.step] at stepped
    split at stepped
    · split at stepped <;> (cases stepped; exact fun waiting => nomatch waiting)
    · cases stepped
  | cellForRowAt row | didSelectRowAt row =>
    obtain ⟨controller, waiting⟩ := access_controller stepped
    rw [Empty, controller, waiting]
    exact empty

/-- A list that replaces no list keeps the result current exactly when it has nobody to find. -/
private theorem current_documents {controller : NewMessageController} (before : controller.users = [])
    (current : controller.inSearchMode = true → controller.filteredUsers =
      controller.users.filter (NewMessageController.finds unicode controller.searchText)) (users : List User) :
    (controller.inSearchMode = true →
        controller.filteredUsers = users.filter (NewMessageController.finds unicode controller.searchText)) ↔
      (controller.inSearchMode = true →
        ∀ user ∈ users, NewMessageController.finds unicode controller.searchText user = false) := by
  apply imp_congr_right
  intro searching
  rw [current searching, before, List.filter_nil, eq_comm, List.filter_eq_nil_iff]
  simp only [Bool.not_eq_true]

private theorem step_current_iff (empty : Empty state) (current : state.Current unicode)
    (stepped : step unicode state event = some next) :
    next.Current unicode ↔ Timely unicode state event := by
  cases event with
  | search isActive searchText =>
    cases stepped
    exact iff_of_true (fun _ => rfl) trivial
  | documents currentUser snapshot =>
    simp only [Search.step] at stepped
    split at stepped
    next waiting =>
      split at stepped
      next missing =>
        cases stepped
        refine iff_of_true current ?_
        intro _ users found
        cases missing.symm.trans found
      next users found =>
        cases stepped
        have timely : Timely unicode state (.documents currentUser snapshot) ↔ (state.controller.inSearchMode = true →
            ∀ user ∈ users, NewMessageController.finds unicode state.controller.searchText user = false) := by
          simp only [Timely, found, Option.some.injEq, forall_eq']
        rw [timely]
        exact current_documents (empty waiting) current users
    next => cases stepped
  | cellForRowAt row | didSelectRowAt row =>
    have current' : next.Current unicode := by
      rw [State.Current, (access_controller stepped).1]
      exact current
    exact iff_of_true current' trivial

/-- The rows of a search are current in every state of a run exactly when the list of
users does not arrive during a search that would find somebody in it. -/
theorem results_current_iff {events : List Event} (ran : run unicode initial events = some state) :
    Throughout (step unicode) (State.Current unicode) initial events ↔
      Stepwise (step unicode) (Timely unicode) initial events := by
  have keeps : ∀ state event next, Empty state → True → step unicode state event = some next → Empty next :=
    fun _ _ _ empty _ stepped => empty.step stepped
  have exact_step : ∀ state event next, Empty state → state.Current unicode → True →
      step unicode state event = some next → (next.Current unicode ↔ Timely unicode state event) :=
    fun _ _ _ empty current _ stepped => step_current_iff empty current stepped
  exact throughout_iff keeps exact_step (fun _ => rfl) (fun searching => nomatch searching) (fun _ _ => trivial) ran

/-- Ann's document, as far as the list reads it. -/
def annDocument : Fields where
  entries := [⟨"uid", .string "ann"⟩, ⟨"username", .string "ann"⟩, ⟨"fullname", .string "Ann"⟩]
  nodupKeys := by simp [List.NodupKeys, List.keys]

theorem list_before_search_current : Throughout (step Unicode.english) (State.Current Unicode.english) initial
    [.documents (some "bob") (some [annDocument]), .search true "ann"] := by
  refine (results_current_iff rfl).mpr ⟨(fun searching => nomatch searching), ?_⟩
  intro next stepped
  cases stepped
  exact ⟨trivial, fun _ _ => trivial⟩

/-- The list arrives when Bob has already typed Ann's name, and he is shown nobody. -/
theorem search_before_list_stale :
    ∃ state, run Unicode.english initial [.search true "ann", .documents (some "bob") (some [annDocument])] = some state ∧
      state.controller.inSearchMode = true ∧ state.controller.filteredUsers = [] ∧
      state.controller.users.map User.username = ["ann"] ∧ ¬ state.Current Unicode.english := by
  refine ⟨_, rfl, rfl, rfl, rfl, ?_⟩
  intro current
  have found : NewMessageController.finds Unicode.english "ann" (User.init annDocument) = true := rfl
  exact List.filter_eq_nil_iff.mp (current rfl).symm (User.init annDocument) (List.mem_singleton_self _) found

theorem contains_lowercased_iff (lowers : ∀ text, unicode.characters (unicode.lowercased text) = (unicode.characters text).map lower)
    (text searched : String) :
    StringProtocol.contains unicode text (unicode.lowercased searched) = true ↔
      searched ≠ "" ∧ (unicode.characters searched).map lower <:+: unicode.characters text := by
  rw [StringProtocol.contains, decide_eq_true_iff, lowers, ne_eq, List.map_eq_nil_iff, unicode.characters_eq_nil]

/-- The query is folded, the username was folded at registration, and the full name never is. -/
private theorem mem_filteredUsers
    (lowers : ∀ text, unicode.characters (unicode.lowercased text) = (unicode.characters text).map lower)
    {controller : NewMessageController} {user : User} {username : String} (folded : user.username = unicode.lowercased username)
    (member : user ∈ controller.users) (typed : controller.searchText ≠ "") :
    user ∈ (controller.updateSearchResults unicode).filteredUsers ↔
      OccursIn unicode lower controller.searchText username ∨
        (unicode.characters controller.searchText).map lower <:+: unicode.characters user.fullname := by
  simp only [NewMessageController.updateSearchResults, List.mem_filter, NewMessageController.finds, Bool.or_eq_true,
    contains_lowercased_iff lowers, folded, lowers, occursIn_iff]
  simp only [member, typed, ne_eq, not_false_eq_true, true_and]

/-- For every search, a registered user is found exactly by the parts of either name,
whatever their case, if and only if the full name has no capitals or is, apart from
case, a part of the username. -/
theorem found_by_name_iff
    (lowers : ∀ text, unicode.characters (unicode.lowercased text) = (unicode.characters text).map lower)
    (idempotent : ∀ letter, lower (lower letter) = lower letter) {form : RegistrationController}
    {credentials : RegistrationCredentials} (complete : form.handleRegistration unicode.lowercased = some credentials)
    {username fullname : String} (named : form.username = some username) (full : form.fullname = some fullname)
    (profileImageUrl uid : String) :
    (∀ controller : NewMessageController, User.init (credentials.data profileImageUrl uid) ∈ controller.users →
      controller.searchText ≠ "" →
      (User.init (credentials.data profileImageUrl uid) ∈ (controller.updateSearchResults unicode).filteredUsers ↔
        OccursIn unicode lower controller.searchText username ∨ OccursIn unicode lower controller.searchText fullname)) ↔
      (unicode.characters fullname).map lower = unicode.characters fullname ∨ OccursIn unicode lower fullname username := by
  obtain ⟨_, _, full', named', _⟩ := RegistrationController.handleRegistration_eq_some.mp complete
  have folded : credentials.username = unicode.lowercased username := by
    rw [named, Option.map_some] at named'
    exact (Option.some.inj named').symm
  obtain rfl : fullname = credentials.fullname := Option.some.inj (full.symm.trans full')
  rw [Registration.init_data]
  refine ⟨?_, ?_⟩
  · intro exact_search
    by_cases empty : credentials.fullname = ""
    · left
      rw [(unicode.characters_eq_nil _).mpr empty, List.map_nil]
    · -- the full name itself is a search that must succeed
      let user : User := ⟨uid, profileImageUrl, credentials.username, credentials.fullname, credentials.email⟩
      have itself := (exact_search ⟨[user], [], true, credentials.fullname⟩ (List.mem_singleton_self _) empty).mpr
        (Or.inr (occursIn_self _))
      rcases (mem_filteredUsers lowers folded (List.mem_singleton_self _) empty).mp itself with part | whole
      · exact Or.inr part
      · exact Or.inl (whole.eq_of_length (List.length_map ..))
  · intro condition controller member typed
    rw [mem_filteredUsers lowers folded member typed]
    apply or_congr_right'
    intro elsewhere
    rw [occursIn_iff]
    refine ⟨?_, ?_⟩
    · intro part
      have mapped := part.map lower
      rwa [List.map_map, (funext idempotent : lower ∘ lower = lower)] at mapped
    · intro part
      rcases condition with small | whole
      · rwa [small] at part
      · exact absurd (occursIn_iff.mpr (part.trans (occursIn_iff.mp whole))) elsewhere

/-- Ann types her full name with a capital, as one does. -/
def queenForm (fullname : String) : RegistrationController :=
  ⟨some "ann@mail", some "secret", some fullname, some "Queen", some ⟨some [255]⟩⟩

private theorem toLower_toLower (letter : Char) : letter.toLower.toLower = letter.toLower := by
  unfold Char.toLower
  grind

private theorem english_lowers (text : String) :
    Unicode.english.characters (Unicode.english.lowercased text) = (Unicode.english.characters text).map Char.toLower :=
  String.toList_ofList

theorem small_name_found :
    let ann : User := ⟨"ann", "https://images/1", "queen", "ann", "ann@mail"⟩
    let search : NewMessageController := ⟨[ann], [], true, "AN"⟩
    ann ∈ (search.updateSearchResults .english).filteredUsers := by
  have complete : (queenForm "ann").handleRegistration Unicode.english.lowercased =
      some ⟨"ann@mail", "secret", "ann", "queen", ⟨some [255]⟩⟩ := rfl
  have found := (found_by_name_iff english_lowers toLower_toLower complete rfl rfl "https://images/1" "ann").mpr
    (Or.inl (by decide))
  exact (found _ (List.mem_singleton_self _) (by decide)).mpr (Or.inr (occursIn_iff.mpr (by decide)))

/-- Ann's own spelling of her name does not find her. -/
theorem capital_name_missed :
    ∃ credentials, (queenForm "Ann").handleRegistration Unicode.english.lowercased = some credentials ∧
      let ann := User.init (credentials.data "https://images/1" "ann")
      let search : NewMessageController := ⟨[ann], [], true, "Ann"⟩
      OccursIn .english Char.toLower search.searchText "Ann" ∧
        ann ∉ (search.updateSearchResults .english).filteredUsers := by
  refine ⟨_, rfl, occursIn_self "Ann", ?_⟩
  decide

end Search

end FireChat
