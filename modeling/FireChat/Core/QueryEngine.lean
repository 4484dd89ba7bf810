import FireChat.Core.LocalStore

/-! Running a query over the local documents. A query that has been in sync before may
start from the documents that it had then, and look only at those read since. -/

namespace FireChat.Core

variable {υ κ δ ν : Type} [LinearOrder κ] [Ord ν] [Std.TransOrd ν] {query : Query κ δ ν}

/-- What the target cache has of the query's target, with the remote keys in order. -/
structure PreviousResults (κ : Type) [LT κ] where
  lastLimboFreeSnapshotVersion : Timestamp
  remoteKeys : List κ
  sorted : remoteKeys.Pairwise (· < ·)

/-- No `TargetData`, or no use made of it. -/
def PreviousResults.none : PreviousResults κ := ⟨SnapshotVersion.none, [], List.Pairwise.nil⟩

namespace QueryEngine

def executeFullCollectionScan (store : LocalStore υ κ δ) (query : Query κ δ ν) : Option (MaybeDocumentMap κ δ) :=
  store.getDocumentsMatchingQuery query SnapshotVersion.none

/-- One turn of the loop in `ApplyQuery`. -/
def applyQueryAt (queryResults : DocumentSet query) : MaybeDocument κ δ → DocumentSet query
  | .document doc => if query.matches doc then queryResults.insert doc else queryResults
  | .noDocument _ _ _ => queryResults

def applyQuery (query : Query κ δ ν) (documents : MaybeDocumentMap κ δ) : DocumentSet query :=
  documents.list.foldl applyQueryAt Keyed.Sorted.empty

def needsRefill (limitType : LimitType) (sortedPreviousResults : DocumentSet query) (remoteKeys : List κ)
    (limboFreeSnapshotVersion : Timestamp) : Bool :=
  if remoteKeys.length ≠ sortedPreviousResults.list.length then true
  else
    match if limitType = .first then sortedPreviousResults.list.getLast? else sortedPreviousResults.list.head? with
    | none => false
    | some edge => (MaybeDocument.document edge).hasPendingWrites || limboFreeSnapshotVersion < edge.version

def getDocumentsMatchingQuery (store : LocalStore υ κ δ) (query : Query κ δ ν) (previous : PreviousResults κ) :
    Option (MaybeDocumentMap κ δ) :=
  if query.matchesAllDocuments then executeFullCollectionScan store query
  else if previous.lastLimboFreeSnapshotVersion = SnapshotVersion.none then executeFullCollectionScan store query
  else
    (store.getDocuments previous.remoteKeys).bind fun documents =>
      let previousResults := applyQuery query documents
      if query.limitType ≠ .none &&
          needsRefill query.limitType previousResults previous.remoteKeys previous.lastLimboFreeSnapshotVersion then
        executeFullCollectionScan store query
      else
        (store.getDocumentsMatchingQuery query previous.lastLimboFreeSnapshotVersion).map fun updatedResults =>
          previousResults.list.foldl (fun results result => results.insert (.document result)) updatedResults

end QueryEngine

/-- With `use_previous_results` the engine is handed the previous results, and none without. -/
def LocalStore.executeQuery (store : LocalStore υ κ δ) (query : Query κ δ ν) (previous : PreviousResults κ) :
    Option (MaybeDocumentMap κ δ) :=
  QueryEngine.getDocumentsMatchingQuery store query previous

end FireChat.Core
