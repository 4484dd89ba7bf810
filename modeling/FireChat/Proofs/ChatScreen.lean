import FireChat.Chat
import FireChat.Service

/-! The chat screen against the query result. The closure appends every addition,
wherever the query sorts it, and ignores every other change. -/

namespace FireChat.Chat

open Transition

variable {currentUid : String}

/-- The closure's array is what the screen was last handed. -/
def Synced (state : State) : Prop := state.controller.messages = state.fetched

private theorem handle_synced {state : State} (synced : Synced state) (delivered : Delivered) :
    Synced (state.handle currentUid delivered) := by
  obtain ⟨⟨kind, item, oldIndex, newIndex⟩, now⟩ := delivered
  cases kind with
  | added => rfl
  | modified | removed => exact synced

private theorem handle_contents {state : State} (synced : Synced state) (delivered : Delivered) :
    (state.handle currentUid delivered).controller.messages.map Message.content =
      state.controller.messages.map Message.content ++ additions [delivered] := by
  obtain ⟨⟨kind, item, oldIndex, newIndex⟩, now⟩ := delivered
  unfold Synced at synced
  cases kind with
  | added => simp [State.handle, Service.fetchMessages, ChatController.fetchMessages, additions, synced]
  | modified | removed => simp [State.handle, Service.fetchMessages, ChatController.fetchMessages, additions]

private theorem handle_all (changes : List Delivered) {state : State} (synced : Synced state) :
    Synced (changes.foldl (State.handle currentUid) state) ∧
      (changes.foldl (State.handle currentUid) state).controller.messages.map Message.content =
        state.controller.messages.map Message.content ++ additions changes := by
  induction changes generalizing state with
  | nil => exact ⟨synced, by simp [additions]⟩
  | cons delivered changes ih =>
    obtain ⟨kept, shown⟩ := ih (handle_synced synced delivered)
    refine ⟨kept, ?_⟩
    rw [List.foldl_cons, shown, handle_contents synced, List.append_assoc]
    simp only [additions, ← List.map_append, ← List.filter_append, List.singleton_append]

theorem step_spec {state next : State} {changes : List Delivered} (synced : Synced state)
    (stepped : step currentUid state changes = some next) :
    state.result.snapshot changes = some next.result ∧ Synced next ∧
      next.controller.messages.map Message.content =
        state.controller.messages.map Message.content ++ additions changes := by
  obtain ⟨result, delivered, rfl⟩ := Option.map_eq_some_iff.mp stepped
  obtain ⟨kept, shown⟩ := handle_all changes synced
  exact ⟨delivered, kept, shown⟩

private theorem step_shows_iff {state next : State} {changes : List Delivered} (synced : Synced state) (shows : state.Shows)
    (stepped : step currentUid state changes = some next) : next.Shows ↔ Appends state changes := by
  obtain ⟨delivered, _, shown⟩ := step_spec synced stepped
  have ordered := (QueryResult.snapshot_eq_some.mp delivered).2
  refine ⟨?_, ?_⟩
  · intro ⟨same, _⟩ result other
    obtain rfl := Option.some.inj (delivered.symm.trans other)
    rw [← same, shown, shows.1]
  · intro appends
    refine ⟨?_, ordered⟩
    rw [shown, shows.1, appends next.result delivered]

/-- Every change of a snapshot adds a document behind all others. -/
def AtEnd : Nat → List Delivered → Prop
  | _, [] => True
  | length, ⟨change, _⟩ :: changes => change.kind = .added ∧ change.newIndex = length ∧ AtEnd (length + 1) changes

private theorem run_at_end {changes : List Delivered} {result next : QueryResult} (last : AtEnd result.list.length changes)
    (ran : Transition.run Keyed.Items.apply result (changes.map Delivered.change) = some next) :
    next.contents = result.contents ++ additions changes := by
  induction changes generalizing result with
  | nil => cases ran; simp [additions]
  | cons delivered changes ih =>
    obtain ⟨⟨kind, item, oldIndex, newIndex⟩, now⟩ := delivered
    obtain ⟨rfl, rfl, later⟩ := last
    obtain ⟨middle, applied, ran⟩ := run_cons.mp ran
    have list := (Keyed.Items.insert_list applied).2
    rw [List.insertIdx_length_self] at list
    have grown : middle.list.length = result.list.length + 1 := by rw [list, List.length_append, List.length_singleton]
    rw [ih (grown ▸ later) ran]
    simp [QueryResult.contents, additions, Delivered.content, list]

/-- A snapshot that adds at the end only, as with one sender and one clock, is shown. -/
theorem appends_of_at_end {state : State} {changes : List Delivered} (last : AtEnd state.result.list.length changes) :
    Appends state changes := by
  intro next delivered
  exact run_at_end last (QueryResult.snapshot_eq_some.mp delivered).1

/-- A snapshot that takes a document away, as when a write is rolled back, is not. -/
theorem not_appends_of_removed {state : State} {changes : List Delivered} {next : QueryResult}
    (delivered : state.result.snapshot changes = some next) {delivery : Delivered} (member : delivery ∈ changes)
    (removed : delivery.change.kind = .removed) : ¬ Appends state changes := by
  intro appends
  have lengths := congrArg List.length (appends next delivered)
  have balance : next.list.length + (changes.map Delivered.change).countP (·.kind = .removed) =
      state.result.list.length + (changes.map Delivered.change).countP (·.kind = .added) :=
    Keyed.Items.run_length (QueryResult.snapshot_eq_some.mp delivered).1
  have added : (additions changes).length = (changes.map Delivered.change).countP (·.kind = .added) := by
    rw [additions, List.length_map, ← List.countP_eq_length_filter, List.countP_map]
    rfl
  have taken : 0 < (changes.map Delivered.change).countP (·.kind = .removed) :=
    List.countP_pos_iff.mpr ⟨delivery.change, List.mem_map_of_mem member, by simpa using removed⟩
  simp only [QueryResult.contents, List.length_append, List.length_map] at lengths
  omega

/-- The screen shows the query result after every snapshot exactly when every
snapshot only appends to it, in the order in which it lists its additions. -/
theorem screen_shows_result_iff {snapshots : List (List Delivered)} {state : State}
    (ran : run currentUid initial snapshots = some state) :
    Throughout (step currentUid) State.Shows initial snapshots ↔
      Stepwise (step currentUid) Appends initial snapshots := by
  have keeps : ∀ state changes next, Synced state → True → step currentUid state changes = some next → Synced next :=
    fun _ _ _ synced _ stepped => (step_spec synced stepped).2.1
  have exact_step : ∀ state changes next, Synced state → state.Shows → True → step currentUid state changes = some next →
      (next.Shows ↔ Appends state changes) :=
    fun _ _ _ synced shows _ stepped => step_shows_iff synced shows stepped
  have start : initial.Shows := by decide
  exact throughout_iff keeps exact_step rfl start (fun _ _ => trivial) ran

private def fromAnn (number : Nat) (text : String) (time : Timestamp) : QueryDocumentSnapshot :=
  ⟨.auto number, Request.data ⟨text, "ann", "bob", time⟩⟩

theorem appended_messages_shown :
    Throughout (step "bob") State.Shows initial
      [[⟨⟨.added, fromAnn 0 "hello" ⟨1, 0⟩, 0, 0⟩, ⟨5, 0⟩⟩], [⟨⟨.added, fromAnn 1 "again" ⟨2, 0⟩, 0, 1⟩, ⟨6, 0⟩⟩]] := by
  refine (screen_shows_result_iff rfl).mpr ⟨appends_of_at_end ⟨rfl, rfl, trivial⟩, ?_⟩
  intro next stepped
  cases stepped
  refine ⟨appends_of_at_end ⟨rfl, rfl, trivial⟩, ?_⟩
  intro next _
  trivial

/-- Bob's own message is on his screen when an earlier one of Ann's arrives, and
later his own is rolled back. He sees both, the older one below. -/
theorem late_and_rolled_back_messages_shown :
    ∃ state, run "bob" initial
        [[⟨⟨.added, ⟨.auto 0, Request.data ⟨"hi", "bob", "ann", ⟨2, 0⟩⟩⟩, 0, 0⟩, ⟨2, 0⟩⟩],
          [⟨⟨.added, fromAnn 1 "hello" ⟨1, 0⟩, 0, 0⟩, ⟨3, 0⟩⟩],
          [⟨⟨.removed, ⟨.auto 0, Request.data ⟨"hi", "bob", "ann", ⟨2, 0⟩⟩⟩, 1, 0⟩, ⟨4, 0⟩⟩]] = some state ∧
      state.controller.messages.map Message.content = [("hi", "bob", "ann"), ("hello", "ann", "bob")] ∧
      state.result.contents = [("hello", "ann", "bob")] ∧ ¬ state.Shows :=
  ⟨_, rfl, rfl, rfl, by decide⟩

end FireChat.Chat
