import Mathlib.Data.List.AList
import Mathlib.Data.Prod.Lex
import Mathlib.Logic.Function.Basic

/-! The part of Firestore that the app relies on: documents of string-keyed
fields, kept in collections under distinct document ids. -/

namespace FireChat

/-- Firestore's `Timestamp`, ordered by seconds and then nanoseconds. -/
structure Timestamp where
  seconds : Int
  nanoseconds : Nat
deriving DecidableEq, Repr

instance : LinearOrder Timestamp :=
  LinearOrder.lift' (fun time => toLex (time.seconds, time.nanoseconds)) fun a b same => by
    cases a
    cases b
    simpa using same

structure NSError where
  localizedDescription : String
deriving DecidableEq, Repr

/-- The values that the app puts into a `[String : Any]` dictionary. -/
inductive Value where
  | string (text : String)
  | timestamp (time : Timestamp)
deriving DecidableEq, Repr

abbrev Fields := AList fun _ : String => Value

/-- `dictionary[key] as? String` -/
def Fields.string? (fields : Fields) (key : String) : Option String :=
  match fields.lookup key with
  | some (.string text) => some text
  | _ => none

/-- `dictionary[key] as? Timestamp` -/
def Fields.timestamp? (fields : Fields) (key : String) : Option Timestamp :=
  match fields.lookup key with
  | some (.timestamp time) => some time
  | _ => none

inductive DocumentId where
  | auto (number : Nat)
  | named (name : String)
deriving DecidableEq, Repr

/-- `origin` numbers the call that wrote the document. It is a ghost: statements
count copies with it and no code reads it. -/
structure Document where
  data : Fields
  origin : Nat
deriving DecidableEq

abbrev Collection := AList fun _ : DocumentId => Document

/-- How many of a collection's documents one call wrote. -/
def Collection.copies (collection : Collection) (origin : Nat) : Nat :=
  collection.entries.countP fun entry => entry.2.origin = origin

def Collection.contents (collection : Collection) : List Fields :=
  collection.entries.map fun entry => entry.2.data

/-- `addDocument` under an id that Firestore generates. -/
def Collection.addDocument (collection : Collection) (number : Nat) (document : Document) : Collection :=
  collection.insert (.auto number) document

/-- `document(name).setData`, which replaces whatever was there. -/
def Collection.setData (collection : Collection) (name : String) (document : Document) : Collection :=
  collection.insert (.named name) document

def Collection.document (collection : Collection) (name : String) : Option Document :=
  collection.lookup (.named name)

theorem Collection.document_setData (collection : Collection) (name : String) (document : Document) (other : String) :
    (collection.setData name document).document other =
      if other = name then some document else collection.document other := by
  unfold Collection.document Collection.setData
  split
  next same => rw [same, AList.lookup_insert]
  next different => exact AList.lookup_insert_ne (by simpa using different)

theorem Collection.document_addDocument (collection : Collection) (number : Nat) (document : Document) (name : String) :
    (collection.addDocument number document).document name = collection.document name :=
  AList.lookup_insert_ne (by simp)

theorem Collection.entries_addDocument {collection : Collection} {number : Nat}
    (fresh : DocumentId.auto number ∉ collection) (document : Document) :
    (collection.addDocument number document).entries = ⟨.auto number, document⟩ :: collection.entries :=
  AList.entries_insert_of_notMem fresh

theorem Collection.copies_addDocument {collection : Collection} {number : Nat}
    (fresh : DocumentId.auto number ∉ collection) (document : Document) (origin : Nat) :
    (collection.addDocument number document).copies origin =
      collection.copies origin + if document.origin = origin then 1 else 0 := by
  simp only [Collection.copies, entries_addDocument fresh, List.countP_cons, decide_eq_true_eq]

theorem Collection.mem_entries_insert {collection : Collection} {id : DocumentId} {document : Document}
    {entry : Sigma fun _ : DocumentId => Document} (member : entry ∈ (collection.insert id document).entries) :
    entry = ⟨id, document⟩ ∨ entry ∈ collection.entries := by
  rw [AList.entries_insert] at member
  rcases List.mem_cons.mp member with same | old
  · exact Or.inl same
  · exact Or.inr (List.kerase_sublist _ _ |>.subset old)

end FireChat
