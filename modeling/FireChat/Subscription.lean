import FireChat.Chat
import FireChat.Service
import FireChat.Core.EventManager
import Mathlib.Data.String.Basic
import Mathlib.Data.Sum.Order

/-! The app's listeners at the core that they are registered with: the query that
both of them make, and what the core's events hand to a closure. -/

namespace FireChat

/-- The key of a document below `messages`. How the core orders keys is left open. -/
structure DocumentKey where
  path : Path
  documentID : DocumentId

/-- Values of different types are ordered by their types. -/
def Value.rank : Value → Timestamp ⊕ₗ String
  | .timestamp time => toLex (.inl time)
  | .string text => toLex (.inr text)

instance : LinearOrder Value :=
  LinearOrder.lift' Value.rank fun first second same => by
    cases first <;> cases second <;> simp_all [Value.rank]

instance : Std.TransOrd Value := inferInstance

variable {δ : Type} (dictionary : δ → Fields)

/-- `order(by: "timestamp")` on a collection below `messages`. -/
def Service.query (path : Path) : Core.Query DocumentKey δ Value where
  path key := key.path = path
  filters := []
  explicitOrderBys := [⟨.field fun data => (dictionary data).lookup "timestamp", .ascending⟩]
  limitType := .none
  limit := Core.Target.kNoLimit
  startAt := none
  endAt := none

/-- A document as the closure reads it. -/
def QueryDocumentSnapshot.read (content : DocumentKey × δ) : QueryDocumentSnapshot := ⟨content.1.documentID, dictionary content.2⟩

/-- `snapshot?.documentChanges`, which leaves metadata changes out. -/
def documentChanges [LinearOrder DocumentKey] {query : Core.Query DocumentKey δ Value} (event : Core.ViewSnapshot query) :
    Option (List DocumentChange) :=
  (event.forEachChange false).map fun changes =>
    changes.map fun change => change.shown.map (QueryDocumentSnapshot.read dictionary)

end FireChat
