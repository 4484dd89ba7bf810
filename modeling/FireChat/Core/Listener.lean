import FireChat.Core.View

/-! What a listener makes of the snapshots of its view: when it raises an event,
and the indexed document changes that the app reads off an event. -/

namespace FireChat.Core

structure ListenOptions where
  includeQueryMetadataChanges : Bool
  includeDocumentMetadataChanges : Bool
  waitForSyncWhenOnline : Bool
deriving DecidableEq, Repr

def ListenOptions.defaultOptions : ListenOptions := ⟨false, false, false⟩

variable {κ δ ν : Type} [LinearOrder κ] [Ord ν] {query : Query κ δ ν}

namespace ViewSnapshot

def hasPendingWrites (snapshot : ViewSnapshot query) : Bool := snapshot.mutatedKeys.Nonempty

/-- A snapshot as if all of its documents were added. -/
def fromInitialDocuments (snapshot : ViewSnapshot query) : ViewSnapshot query :=
  { documents := snapshot.documents
    oldDocuments := Keyed.Sorted.empty
    documentChanges := snapshot.documents.list.map fun document => ⟨document, .added⟩
    mutatedKeys := snapshot.mutatedKeys
    fromCache := snapshot.fromCache
    syncStateChanged := true
    excludesMetadataChanges := snapshot.excludesMetadataChanges }

/-- A snapshot without its metadata-only changes. -/
def withoutMetadataChanges (snapshot : ViewSnapshot query) : ViewSnapshot query :=
  { snapshot with
    documentChanges := snapshot.documentChanges.filter fun change => change.type ≠ .metadata
    excludesMetadataChanges := true }

end ViewSnapshot

structure QueryListener (query : Query κ δ ν) where
  options : ListenOptions
  snapshot : Option (ViewSnapshot query)
  raisedInitialEvent : Bool
  onlineState : OnlineState

namespace QueryListener

def create (query : Query κ δ ν) (options : ListenOptions) : QueryListener query := ⟨options, none, false, .unknown⟩

def shouldRaiseInitialEvent (listener : QueryListener query) (snapshot : ViewSnapshot query) (onlineState : OnlineState) : Bool :=
  if !snapshot.fromCache then true
  else if listener.options.waitForSyncWhenOnline && onlineState ≠ .offline then false
  else !snapshot.documents.list.isEmpty || onlineState = .offline

def shouldRaiseEvent (listener : QueryListener query) (snapshot : ViewSnapshot query) : Bool :=
  if !snapshot.documentChanges.isEmpty then true
  else
    let hasPendingWritesChanged := listener.snapshot.any fun last => last.hasPendingWrites ≠ snapshot.hasPendingWrites
    if snapshot.syncStateChanged || hasPendingWritesChanged then listener.options.includeQueryMetadataChanges
    else false

def filtered (listener : QueryListener query) (snapshot : ViewSnapshot query) : ViewSnapshot query :=
  if listener.options.includeDocumentMetadataChanges then snapshot else snapshot.withoutMetadataChanges

/-- The listener after a snapshot and the event that it raises. The result is
`none` where the source fails an assertion. -/
def onViewSnapshot (listener : QueryListener query) (snapshot : ViewSnapshot query) :
    Option (QueryListener query × Option (ViewSnapshot query)) :=
  if snapshot.documentChanges.isEmpty && !snapshot.syncStateChanged then none
  else
    let snapshot := listener.filtered snapshot
    if !listener.raisedInitialEvent then
      if listener.shouldRaiseInitialEvent snapshot listener.onlineState then
        some ({ listener with snapshot := some snapshot, raisedInitialEvent := true }, some snapshot.fromInitialDocuments)
      else some ({ listener with snapshot := some snapshot }, none)
    else
      some ({ listener with snapshot := some snapshot }, if listener.shouldRaiseEvent snapshot then some snapshot else none)

def onOnlineStateChanged (listener : QueryListener query) (onlineState : OnlineState) :
    QueryListener query × Option (ViewSnapshot query) :=
  let informed := { listener with onlineState := onlineState }
  match listener.snapshot with
  | none => (informed, none)
  | some snapshot =>
    if !listener.raisedInitialEvent && listener.shouldRaiseInitialEvent snapshot onlineState then
      ({ informed with raisedInitialEvent := true }, some snapshot.fromInitialDocuments)
    else (informed, none)

end QueryListener

structure SnapshotMetadata where
  pendingWrites : Bool
  fromCache : Bool
deriving DecidableEq, Repr

structure DocumentSnapshot (κ δ : Type) where
  document : Document κ δ
  metadata : SnapshotMetadata

/-- An index is `none` where the source has `npos`. -/
structure DocumentChange (κ δ : Type) where
  type : Keyed.Kind
  document : DocumentSnapshot κ δ
  oldIndex : Option Nat
  newIndex : Option Nat

/-- `NSNotFound`, which `FIRDocumentChange` has for a missing index. -/
def nsNotFound : Nat := 2 ^ 63 - 1

/-- A document change as the app reads it. -/
def DocumentChange.shown {κ δ : Type} (change : DocumentChange κ δ) : Keyed.Change (κ × δ) :=
  ⟨change.type, change.document.document.content, change.oldIndex.getD nsNotFound, change.newIndex.getD nsNotFound⟩

def documentChangeTypeForChange : ChangeType → Keyed.Kind
  | .added => .added
  | .modified => .modified
  | .metadata => .modified
  | .removed => .removed

namespace ViewSnapshot

def documentSnapshot (snapshot : ViewSnapshot query) (document : Document κ δ) : DocumentSnapshot κ δ :=
  ⟨document, ⟨document.key ∈ snapshot.mutatedKeys, snapshot.fromCache⟩⟩

/-- The changes of a first snapshot, which are all adds and in the order of the query. -/
def forEachAdded (snapshot : ViewSnapshot query) :
    Nat → Option (Document κ δ) → List (DocumentViewChange κ δ) → Option (List (DocumentChange κ δ))
  | _, _, [] => some []
  | index, lastDocument, change :: changes =>
    if change.type = .added ∧ (lastDocument.all fun last => query.comparator last change.document = .lt) then
      (snapshot.forEachAdded (index + 1) (some change.document) changes).map fun rest =>
        ⟨.added, snapshot.documentSnapshot change.document, none, some index⟩ :: rest
    else none

variable [Std.TransOrd ν]

/-- One change applied to the set that looks up indices, which fails if it holds no document of the key. -/
def trackChange (snapshot : ViewSnapshot query) (indexTracker : DocumentSet query) (change : DocumentViewChange κ δ) :
    Option (DocumentChange κ δ × DocumentSet query) :=
  let key := change.document.key
  let left : Option (Option Nat × DocumentSet query) :=
    if change.type = .added then some (none, indexTracker)
    else (indexTracker.indexOf key).map fun oldIndex => (some oldIndex, indexTracker.erase key)
  left.map fun (oldIndex, indexTracker) =>
    let type := documentChangeTypeForChange change.type
    let document := snapshot.documentSnapshot change.document
    if change.type = .removed then (⟨type, document, oldIndex, none⟩, indexTracker)
    else
      let entered := indexTracker.insert change.document
      (⟨type, document, oldIndex, entered.indexOf key⟩, entered)

def forEachTracked (snapshot : ViewSnapshot query) (includeMetadataChanges : Bool) :
    DocumentSet query → List (DocumentViewChange κ δ) → Option (List (DocumentChange κ δ))
  | _, [] => some []
  | indexTracker, change :: changes =>
    if !includeMetadataChanges && change.type = .metadata then
      snapshot.forEachTracked includeMetadataChanges indexTracker changes
    else
      (snapshot.trackChange indexTracker change).bind fun (documentChange, indexTracker) =>
        (snapshot.forEachTracked includeMetadataChanges indexTracker changes).map fun rest => documentChange :: rest

/-- `QuerySnapshot::ForEachChange`. The result is `none` where the source throws or fails an assertion. -/
def forEachChange (snapshot : ViewSnapshot query) (includeMetadataChanges : Bool) : Option (List (DocumentChange κ δ)) :=
  if includeMetadataChanges && snapshot.excludesMetadataChanges then none
  else if snapshot.oldDocuments.list.isEmpty then snapshot.forEachAdded 0 none snapshot.documentChanges
  else snapshot.forEachTracked includeMetadataChanges snapshot.oldDocuments snapshot.documentChanges

end ViewSnapshot

end FireChat.Core
