import FireChat.Proofs.Session

/-! The query lists its documents by time, and the inbox shows what it made of them in
the order in which a dictionary lists its values, which may be any. -/

namespace FireChat.Inbox

open Replay

variable {uid : String} {events : List Event} {state next : State}

def Event.Handles : Event → Prop
  | .snapshot _ _ changes => ∃ delivery, changes = [delivery] ∧ delivery.change.kind ≠ .removed
  | .reply .. => True
  | _ => False

/-- The time by which the query sorts the document. -/
def storedTime (delivery : Delivered) : Option Timestamp := delivery.change.item.data.timestamp? "timestamp"

/-- The change that the row of a partner was built from. -/
def rowSource (uid : String) (events : List Event) (partner : String) : Option Delivered :=
  latest (fun delivery => (delivery.decode (some uid)).chatPartnerId) partner (sources events)

def InOrder (uid : String) (events : List Event) (rows : List Conversation) : Prop :=
  rows.Pairwise fun first second => ∀ earlier later, (rowSource uid events (partner first)).bind storedTime = some earlier →
    (rowSource uid events (partner second)).bind storedTime = some later → earlier ≤ later

def Tied (uid : String) (events : List Event) : Prop :=
  ∀ first second one other, rowSource uid events first = some one → rowSource uid events second = some other →
    storedTime one = storedTime other

private theorem Event.Handles.fetches {event : Event} (handles : event.Handles) : event.Fetches := by
  cases event with
  | signIn | authenticationComplete | logout => cases handles
  | snapshot | reply => trivial

private theorem run_timed (handles : ∀ event ∈ events, event.Handles) (ran : run (viewDidLoad (some uid)) events = some state) :
    ∀ delivery ∈ delivered events, (storedTime delivery).isSome := by
  refine run_deliveries (fun _ => Event.Handles.fetches) ?_ handles ran
  intro _ _ before after allowed moved delivery member
  obtain ⟨only, rfl, kept⟩ := allowed
  obtain rfl := List.mem_singleton.mp member
  obtain ⟨ran, ordered⟩ := QueryResult.snapshot_eq_some.mp moved
  obtain ⟨result, applied, same⟩ := Transition.run_cons.mp ran
  cases same
  apply ordered.1
  have found := Keyed.Items.find_apply applied delivery.change.item.documentID
  rw [if_pos rfl] at found
  have left : delivery.change.left = some delivery.change.item := by
    unfold Keyed.Change.left
    cases kind : delivery.change.kind with
    | added | modified => rfl
    | removed => exact absurd kind kept
  exact (Keyed.Items.find_eq_some.mp (found.trans left)).1

private theorem mem_sources {delivery : Delivered} (member : delivery ∈ sources events) : delivery ∈ delivered events := by
  obtain ⟨answer, _, found⟩ := List.mem_filterMap.mp member
  exact List.mem_of_getElem? found

private theorem latest_replied (uid : String) (events : List Event) (target : String) :
    (latest partner target (replied uid events)).map Conversation.message =
      (rowSource uid events target).map (Delivered.decode (some uid)) := by
  have byMessage := latest_map Message.chatPartnerId Conversation.message target (replied uid events)
  rw [replied_messages, latest_map] at byMessage
  exact byMessage.symm

private theorem Session.mem_row (session : Session uid events state) {row : Conversation} :
    row ∈ state.controller.conversations ↔ latest partner (partner row) (replied uid events) = some row := by
  rw [session.rows]
  exact mem_values partner session.dictionary

theorem Session.row_source (session : Session uid events state) {row : Conversation}
    (shown : row ∈ state.controller.conversations) :
    ∃ delivery, rowSource uid events (partner row) = some delivery ∧ delivery.decode (some uid) = row.message := by
  have built := latest_replied uid events (partner row)
  rw [session.mem_row.mp shown] at built
  exact Option.map_eq_some_iff.mp built.symm

private theorem Session.source_row (session : Session uid events state) {target : String} {delivery : Delivered}
    (source : rowSource uid events target = some delivery) : ∃ row ∈ state.controller.conversations, partner row = target := by
  have built := latest_replied uid events target
  rw [source] at built
  obtain ⟨row, last, _⟩ := Option.map_eq_some_iff.mp built
  have same := (latest_eq_some partner last).2
  exact ⟨row, session.mem_row.mpr (same.symm ▸ last), same⟩

/-- Whatever order the dictionary lists its values in, the rows keep the order of the
query: this is so exactly when the documents of all rows carry one time. -/
theorem rows_in_order_iff (handles : ∀ event ∈ events, event.Handles) (ran : run (viewDidLoad (some uid)) events = some state) :
    (∀ rows, rows.Perm state.controller.conversations → InOrder uid events rows) ↔ Tied uid events := by
  have session := run_session (fun event member => (handles event member).fetches) ran
  have timed := run_timed handles ran
  unfold InOrder
  rw [pairwise_enumerations]
  · refine ⟨?_, ?_⟩
    · intro ordered first second one other here there
      obtain ⟨row, shown, rfl⟩ := session.source_row here
      obtain ⟨below, shown', rfl⟩ := session.source_row there
      obtain ⟨time, carried⟩ := Option.isSome_iff_exists.mp (timed one (mem_sources (latest_eq_some _ here).1))
      obtain ⟨time', carried'⟩ := Option.isSome_iff_exists.mp (timed other (mem_sources (latest_eq_some _ there).1))
      have forwards := ordered row shown below shown' time time' (by rw [here]; exact carried) (by rw [there]; exact carried')
      have backwards := ordered below shown' row shown time' time (by rw [there]; exact carried') (by rw [here]; exact carried)
      rw [carried, carried', le_antisymm forwards backwards]
    · intro tied first shown second shown' earlier later before after
      obtain ⟨one, here, _⟩ := session.row_source shown
      obtain ⟨other, there, _⟩ := session.row_source shown'
      rw [here, Option.bind_some, tied _ _ _ _ here there] at before
      rw [there, Option.bind_some, before] at after
      exact le_of_eq (Option.some.inj after)
  · intro row _ earlier later before after
    exact le_of_eq (Option.some.inj (before.symm.trans after))

def fromCarl (time : Timestamp) : Delivered :=
  ⟨⟨.added, ⟨.named "carl", Request.data ⟨"hi", "carl", "bob", time⟩⟩, 0, 1⟩, ⟨9, 0⟩⟩

def tiedMessages : List Event :=
  firstMessage ++ [.snapshot 0 "bob" [fromCarl ⟨1, 0⟩], .reply 1 "carl" (some (profile "carl"))]

theorem tied_rows_in_order : ∃ state, run (viewDidLoad (some "bob")) tiedMessages = some state ∧
    state.controller.conversations.length = 2 ∧
      ∀ rows, rows.Perm state.controller.conversations → InOrder "bob" tiedMessages rows := by
  refine ⟨_, rfl, rfl, (rows_in_order_iff ?_ rfl).mpr ?_⟩
  · simp [tiedMessages, firstMessage, Event.Handles, summary, fromCarl]
  · have timed : ∀ source ∈ sources tiedMessages, storedTime source = some ⟨1, 0⟩ := by decide
    intro first second one other here there
    rw [timed one (latest_eq_some _ here).1, timed other (latest_eq_some _ there).1]

/-- The dictionary lists Carl, who has written later, before Ann. -/
theorem later_row_first : ∃ state,
    run (viewDidLoad (some "bob")) (firstMessage ++ [.snapshot 0 "bob" [fromCarl ⟨2, 0⟩], .reply 1 "carl" (some (profile "carl"))]) =
        some state ∧
      ∃ rows, rows.Perm state.controller.conversations ∧ ¬ InOrder "bob"
        (firstMessage ++ [.snapshot 0 "bob" [fromCarl ⟨2, 0⟩], .reply 1 "carl" (some (profile "carl"))]) rows := by
  refine ⟨_, rfl, _, List.Perm.refl _, ?_⟩
  intro ordered
  have sooner := (List.pairwise_cons.mp ordered).1 _ (List.mem_singleton_self _) ⟨2, 0⟩ ⟨1, 0⟩ rfl rfl
  exact absurd sooner (by decide)

end FireChat.Inbox
