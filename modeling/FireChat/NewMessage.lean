import FireChat.Library.Transition
import FireChat.Model
import FireChat.UIKit

/-! The screen that lists the other users and searches them. The list arrives once, at
any time, and the search bar changes whenever the user likes. -/

namespace FireChat

/-- Strings as Swift sees them: their characters, where canonically equivalent ones are
one and the same, and their lower-case forms. -/
structure Unicode (χ : Type) where
  characters : String → List χ
  lowercased : String → String
  characters_eq_nil : ∀ text, characters text = [] ↔ text = ""

/-- Plain English, where a character is one scalar. -/
def Unicode.english : Unicode Char where
  characters := String.toList
  lowercased text := String.ofList (text.toList.map Char.toLower)
  characters_eq_nil _ := String.toList_eq_nil_iff

variable {χ : Type} [DecidableEq χ]

/-- Foundation's `text.contains(other)`. No string contains the empty one. -/
def StringProtocol.contains (unicode : Unicode χ) (text other : String) : Bool :=
  unicode.characters other ≠ [] ∧ unicode.characters other <:+: unicode.characters text

/-- `fetchUsers` up to its completion, which an error does not reach. -/
def Service.fetchUsers (currentUser : Option String) (snapshot : Option (List Fields)) : Option (List User) := do
  let documents ← snapshot
  let users := documents.map User.init
  match users.findIdx? fun user => some user.uid == currentUser with
  | some i => some (users.eraseIdx i)
  | none => some users

theorem Service.fetchUsers_some (currentUser : Option String) (documents : List Fields) :
    Service.fetchUsers currentUser (some documents) =
      some ((documents.map User.init).eraseP fun user => some user.uid == currentUser) := by
  simp only [Service.fetchUsers, Option.bind_eq_bind, Option.bind_some, List.eraseP_eq_eraseIdx]
  cases (documents.map User.init).findIdx? fun user => some user.uid == currentUser <;> rfl

/-- The controller with what its search bar holds, whose text is never nil. -/
structure NewMessageController where
  users : List User
  filteredUsers : List User
  isActive : Bool
  searchText : String
deriving DecidableEq, Repr

namespace NewMessageController

def inSearchMode (controller : NewMessageController) : Bool := controller.isActive && !controller.searchText.isEmpty

/-- The test that `updateSearchResults` filters by. -/
def finds (unicode : Unicode χ) (text : String) (user : User) : Bool :=
  let searchText := unicode.lowercased text
  StringProtocol.contains unicode user.username searchText || StringProtocol.contains unicode user.fullname searchText

def updateSearchResults (unicode : Unicode χ) (controller : NewMessageController) : NewMessageController :=
  { controller with filteredUsers := controller.users.filter (finds unicode controller.searchText) }

/-- The completion that `fetchUsers` passes, where it is called. -/
def fetchUsers (controller : NewMessageController) : Option (List User) → NewMessageController
  | some users => { controller with users }
  | none => controller

/-- The array that the row methods index. -/
def rows (controller : NewMessageController) : List User :=
  if controller.inSearchMode then controller.filteredUsers else controller.users

def numberOfRowsInSection (controller : NewMessageController) : Nat :=
  if controller.inSearchMode then controller.filteredUsers.length else controller.users.length

end NewMessageController

namespace Search

/-- `waiting` says that the one call of `fetchUsers` is unanswered, and `reported` is
the row count that the table has read last. -/
structure State where
  controller : NewMessageController
  waiting : Bool
  reported : Nat
  accesses : List Access

/-- `viewDidLoad` -/
def initial : State := ⟨⟨[], [], false, ""⟩, true, 0, []⟩

/-- UIKit reports each change of the search bar to `updateSearchResults` at once. -/
inductive Event where
  | search (isActive : Bool) (searchText : String)
  | documents (currentUser : Option String) (snapshot : Option (List Fields))
  | cellForRowAt (row : Nat)
  | didSelectRowAt (row : Nat)

def State.reloadData (state : State) : State := { state with reported := state.controller.numberOfRowsInSection }

def State.access (state : State) (row : Nat) : Option State :=
  if row < state.reported then
    some { state with accesses := state.accesses ++ [⟨row, state.controller.rows.length⟩] }
  else none

def step (unicode : Unicode χ) (state : State) : Event → Option State
  | .search isActive searchText =>
    some
      { state with
        controller := NewMessageController.updateSearchResults unicode
          { state.controller with isActive, searchText } }.reloadData
  | .documents currentUser snapshot =>
    if state.waiting then
      let state := { state with waiting := false }
      match Service.fetchUsers currentUser snapshot with
      | none => some state
      | some users => some { state with controller := state.controller.fetchUsers (some users) }.reloadData
    else none
  | .cellForRowAt row | .didSelectRowAt row => state.access row

abbrev run (unicode : Unicode χ) := Transition.run (step unicode)

/-- What a search shows is what it would find now. -/
def State.Current (unicode : Unicode χ) (state : State) : Prop :=
  state.controller.inSearchMode = true → state.controller.filteredUsers =
    state.controller.users.filter (NewMessageController.finds unicode state.controller.searchText)

/-- A list that arrives during a search has nobody whom the search would find. -/
def Timely (unicode : Unicode χ) (state : State) : Event → Prop
  | .documents currentUser snapshot => state.controller.inSearchMode = true →
      ∀ users, Service.fetchUsers currentUser snapshot = some users →
        ∀ user ∈ users, NewMessageController.finds unicode state.controller.searchText user = false
  | _ => True

end Search

end FireChat
