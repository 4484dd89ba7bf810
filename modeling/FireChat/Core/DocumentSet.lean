import FireChat.Core.Query
import FireChat.Core.SortedMap

/-! A document set as the core stores it: an index of the documents by key, and the
documents in the order of a query. -/

namespace FireChat.Core

/-- The fields of `DocumentSet`. A sorted set is a map without values. -/
structure StoredDocumentSet (κ δ : Type) where
  index : SortedMap κ (Document κ δ)
  sortedSet : SortedMap (Document κ δ) Unit

namespace StoredDocumentSet

variable {κ δ ν : Type} [Ord κ] [Ord ν]

def empty : StoredDocumentSet κ δ := ⟨SortedMap.empty, SortedMap.empty⟩

def size (set : StoredDocumentSet κ δ) : Nat := set.index.size

def containsKey (set : StoredDocumentSet κ δ) (key : κ) : Bool := (set.index.find compare key).isSome

def getDocument (set : StoredDocumentSet κ δ) (key : κ) : Option (Document κ δ) := set.index.get compare key

def getFirstDocument (set : StoredDocumentSet κ δ) : Option (Document κ δ) := set.sortedSet.min?.map Prod.fst

def getLastDocument (set : StoredDocumentSet κ δ) : Option (Document κ δ) := set.sortedSet.max?.map Prod.fst

def indexOf (query : Query κ δ ν) (set : StoredDocumentSet κ δ) (key : κ) : Option Nat :=
  (set.getDocument key).bind fun doc => set.sortedSet.findIndex query.comparator doc

def erase (query : Query κ δ ν) (set : StoredDocumentSet κ δ) (key : κ) : Option (StoredDocumentSet κ δ) :=
  match set.getDocument key with
  | none => some set
  | some doc =>
    (set.index.erase compare key).bind fun index =>
      (set.sortedSet.erase query.comparator doc).map fun sortedSet => ⟨index, sortedSet⟩

/-- Any prior mapping of the document's key is removed first. -/
def insert [DecidableEq κ] [DecidableEq δ] (query : Query κ δ ν) (set : StoredDocumentSet κ δ) (document : Document κ δ) :
    Option (StoredDocumentSet κ δ) :=
  (set.erase query document.key).bind fun removed =>
    (removed.index.insert compare document.key document).bind fun index =>
      (removed.sortedSet.insert query.comparator document ()).map fun sortedSet => ⟨index, sortedSet⟩

end StoredDocumentSet

end FireChat.Core
