import FireChat.Library.Keyed
import FireChat.Model

/-! Firestore's snapshot listeners. A listener is handed the changes that turn one
query result into the next one; the app never sees the result itself. -/

namespace FireChat

structure QueryDocumentSnapshot where
  documentID : DocumentId
  data : Fields

abbrev DocumentChange := Keyed.Change QueryDocumentSnapshot

abbrev QueryResult := Keyed.Items QueryDocumentSnapshot.documentID

/-- A change, with the time at which the app decodes its document. -/
structure Delivered where
  change : DocumentChange
  now : Timestamp

namespace Delivered

def documentID (delivered : Delivered) : DocumentId := delivered.change.item.documentID

def content (delivered : Delivered) : String × String × String := delivered.change.item.data.content

def decode (currentUser : Option String) (delivered : Delivered) : Message :=
  Message.init currentUser delivered.now delivered.change.item.data

@[simp] theorem decode_content (currentUser : Option String) (delivered : Delivered) :
    (delivered.decode currentUser).content = delivered.content := rfl

end Delivered

namespace QueryResult

def contents (result : QueryResult) : List (String × String × String) :=
  result.list.map fun document => document.data.content

/-- `order(by: "timestamp")`, which leaves out documents without that field. -/
def Ordered (result : QueryResult) : Prop :=
  (∀ document ∈ result.list, (document.data.timestamp? "timestamp").isSome) ∧
    (result.list.filterMap fun document => document.data.timestamp? "timestamp").Pairwise (· ≤ ·)

instance (result : QueryResult) : Decidable result.Ordered :=
  inferInstanceAs (Decidable (_ ∧ _))

/-- The next query result. A snapshot is delivered only if its changes fit the last one. -/
def snapshot (result : QueryResult) (changes : List Delivered) : Option QueryResult :=
  (Transition.run Keyed.Items.apply result (changes.map Delivered.change)).filter fun next => next.Ordered

theorem snapshot_eq_some {result next : QueryResult} {changes : List Delivered} :
    result.snapshot changes = some next ↔
      Transition.run Keyed.Items.apply result (changes.map Delivered.change) = some next ∧ next.Ordered := by
  simp [snapshot, Option.filter_eq_some_iff]

end QueryResult

/-- What the store promises of a document of `messages/owner/recent-messages`. -/
def Addressed (owner partner : String) (data : Fields) : Prop :=
  owner ≠ partner ∧
    (data.string? "fromId" = some owner ∧ data.string? "toId" = some partner ∨
      data.string? "fromId" = some partner ∧ data.string? "toId" = some owner)

end FireChat
