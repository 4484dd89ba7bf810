import FireChat.Proofs.Inbox
import FireChat.Rows

/-! Every index that a row method uses is inside its array. A view's count is that of
the array at its last reload, and every change of the array reloads the view. -/

namespace FireChat

namespace ChatRows

variable {currentUid : String} {state next : State} {event : Event}

private def Steady (state : State) : Prop := state.collectionView.Steady state.controller.messages.length

private theorem Steady.step (steady : Steady state) (stepped : step currentUid state event = some next) : Steady next := by
  cases event with
  | change delivered =>
    obtain ⟨⟨kind, item, oldIndex, newIndex⟩, now⟩ := delivered
    cases kind with
    | added =>
      cases stepped
      apply Table.Steady.scrollToLast (steady.reloadData _)
      simp [ChatController.numberOfItemsInSection, ChatController.fetchMessages]
    | modified | removed => cases stepped; exact steady
  | cellForItemAt row | sizeForItemAt row =>
    obtain ⟨collectionView, asked, rfl⟩ := Option.map_eq_some_iff.mp stepped
    exact Table.Steady.ask steady asked

private theorem run_steady {events : List Event} (ran : run currentUid initial events = some state) : Steady state := by
  have start : Steady initial := Table.steady_empty
  exact Transition.run_invariant (fun _ _ _ steady _ stepped => Steady.step steady stepped) start (fun _ _ => trivial) ran

end ChatRows

namespace InboxRows

variable {state next : State} {event : Event}

private def Steady (state : State) : Prop := state.tableView.Steady state.inbox.controller.conversations.length

private theorem controller_kept {inbox after : Inbox.State} {event : Inbox.Event} (stepped : Inbox.Step inbox event after)
    (quiet : reloads event = false) : after.controller = inbox.controller := by
  cases stepped with
  | authenticationComplete => cases user : inbox.currentUser <;> simp [Inbox.State.fetchConverations, user]
  | signIn | thrown | signedOut | delivered | missing => rfl
  | replied => cases quiet

private theorem Steady.step (steady : Steady state) (stepped : step state event = some next) : Steady next := by
  cases event with
  | inbox event =>
    obtain ⟨inbox, moved, rest⟩ := Option.bind_eq_some_iff.mp stepped
    split at rest
    next => cases rest; exact Table.Steady.reloadData steady _
    next quiet =>
      cases rest
      unfold Steady
      rw [controller_kept (.of_step moved) (by simpa using quiet)]
      exact steady
  | cellForRowAt row | didSelectRowAt row =>
    obtain ⟨tableView, asked, rfl⟩ := Option.map_eq_some_iff.mp stepped
    exact Table.Steady.ask steady asked

private theorem run_steady {restored : Option String} {events : List Event}
    (ran : run (viewDidLoad restored) events = some state) : Steady state := by
  have start : Steady (viewDidLoad restored) := by
    cases restored <;> exact Table.steady_empty
  exact Transition.run_invariant (fun _ _ _ steady _ stepped => Steady.step steady stepped) start (fun _ _ => trivial) ran

end InboxRows

namespace Search

variable {χ : Type} [DecidableEq χ] {unicode : Unicode χ} {state next : State} {event : Event}

private def Steady (state : State) : Prop := state.tableView.Steady state.controller.rows.length

private theorem numberOfRowsInSection_eq (controller : NewMessageController) :
    controller.numberOfRowsInSection = controller.rows.length := by
  unfold NewMessageController.numberOfRowsInSection NewMessageController.rows
  split
  · rfl
  · rfl

private theorem Steady.reloadData (inRange : ∀ access ∈ state.accesses, access.InRange) : Steady state.reloadData :=
  ⟨numberOfRowsInSection_eq state.controller, inRange⟩

private theorem Steady.step (steady : Steady state) (stepped : step unicode state event = some next) : Steady next := by
  cases event with
  | search isActive searchText => cases stepped; exact Steady.reloadData steady.inRange
  | documents currentUser snapshot =>
    simp only [Search.step] at stepped
    split at stepped
    · split at stepped
      next => cases stepped; exact steady
      next => cases stepped; exact Steady.reloadData steady.inRange
    · cases stepped
  | cellForRowAt row | didSelectRowAt row =>
    have asked : state.tableView.ask row state.controller.rows.length = some next.tableView ∧ next.controller = state.controller := by
      simp only [Search.step, State.access] at stepped
      split at stepped
      next below => cases stepped; simp [Table.ask, State.tableView, below]
      next => cases stepped
    unfold Steady
    rw [asked.2]
    exact Table.Steady.ask steady asked.1

private theorem run_steady {events : List Event} (ran : run unicode initial events = some state) : Steady state := by
  have start : Steady initial := Table.steady_empty
  exact Transition.run_invariant (fun _ _ _ steady _ stepped => Steady.step steady stepped) start (fun _ _ => trivial) ran

end Search

/-- Whatever is delivered, answered or searched, and whenever a view asks, no index is out of range. -/
theorem row_indices_in_range :
    (∀ currentUid events state, ChatRows.run currentUid ChatRows.initial events = some state →
      ∀ access ∈ state.collectionView.accesses, access.InRange) ∧
    (∀ restored events state, InboxRows.run (InboxRows.viewDidLoad restored) events = some state →
      ∀ access ∈ state.tableView.accesses, access.InRange) ∧
    ∀ (χ : Type) [DecidableEq χ] (unicode : Unicode χ) events state, Search.run unicode Search.initial events = some state →
      ∀ access ∈ state.accesses, access.InRange :=
  ⟨fun _ _ _ ran => (ChatRows.run_steady ran).inRange, fun _ _ _ ran => (InboxRows.run_steady ran).inRange,
    fun _ _ _ _ _ ran => (Search.run_steady ran).inRange⟩

def chatShown : List ChatRows.Event :=
  [.change (Inbox.summary .added "hello" ⟨1, 0⟩), .sizeForItemAt 0, .cellForItemAt 0]

def inboxTapped : List InboxRows.Event :=
  [.inbox (.snapshot 0 "bob" [Inbox.summary .added "hello" ⟨1, 0⟩]), .inbox (.reply 0 "ann" (some (Inbox.profile "ann"))),
    .didSelectRowAt 0]

def annSearched : List Search.Event := [.documents (some "bob") (some [Inbox.profile "ann"]), .search true "an", .cellForRowAt 0]

theorem shown_rows_in_range :
    (∃ state, ChatRows.run "bob" ChatRows.initial chatShown = some state ∧
      state.collectionView.accesses = [⟨0, 1⟩, ⟨0, 1⟩, ⟨0, 1⟩] ∧ ∀ access ∈ state.collectionView.accesses, access.InRange) ∧
    (∃ state, InboxRows.run (InboxRows.viewDidLoad (some "bob")) inboxTapped = some state ∧
      state.tableView.accesses = [⟨0, 1⟩] ∧ ∀ access ∈ state.tableView.accesses, access.InRange) ∧
    ∃ state, Search.run .english Search.initial annSearched = some state ∧
      state.accesses = [⟨0, 1⟩] ∧ ∀ access ∈ state.accesses, access.InRange :=
  ⟨⟨_, rfl, rfl, row_indices_in_range.1 "bob" chatShown _ rfl⟩,
    ⟨_, rfl, rfl, row_indices_in_range.2.1 (some "bob") inboxTapped _ rfl⟩,
    ⟨_, rfl, rfl, row_indices_in_range.2.2 Char .english annSearched _ rfl⟩⟩

end FireChat
