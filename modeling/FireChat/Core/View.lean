import FireChat.Core.Query
import Mathlib.Data.Finset.Sort

/-! The view of one query: what each batch of document changes does to its
documents, which changes it reports, and when it counts as synced. -/

namespace FireChat.Core

/-- `DocumentViewChange::Type` -/
inductive ChangeType where
  | removed
  | added
  | modified
  | metadata
deriving DecidableEq, Repr

structure DocumentViewChange (κ δ : Type) where
  document : Document κ δ
  type : ChangeType
deriving DecidableEq

inductive SyncState where
  | none
  | local
  | synced
deriving DecidableEq, Repr

inductive OnlineState where
  | unknown
  | online
  | offline
deriving DecidableEq, Repr

structure TargetChange (κ : Type) where
  current : Bool
  addedDocuments : Finset κ
  modifiedDocuments : Finset κ
  removedDocuments : Finset κ

inductive LimboDocumentChange (κ : Type) where
  | added (key : κ)
  | removed (key : κ)
deriving DecidableEq, Repr

/-- `change_map_`, from keys to the one change kept for each. -/
structure DocumentViewChangeSet (κ δ : Type) where
  changeMap : AList fun _ : κ => DocumentViewChange κ δ

variable {κ δ ν : Type} [LinearOrder κ] [DecidableEq δ] [Ord ν] [Std.TransOrd ν]

namespace DocumentViewChangeSet

def empty : DocumentViewChangeSet κ δ := ⟨∅⟩

def find (changes : DocumentViewChangeSet κ δ) (key : κ) : Option (DocumentViewChange κ δ) := changes.changeMap.lookup key

def insert (changes : DocumentViewChangeSet κ δ) (key : κ) (change : DocumentViewChange κ δ) : DocumentViewChangeSet κ δ :=
  ⟨changes.changeMap.insert key change⟩

def erase (changes : DocumentViewChangeSet κ δ) (key : κ) : DocumentViewChangeSet κ δ := ⟨changes.changeMap.erase key⟩

/-- The result is `none` where the source fails with an unsupported combination. -/
def addChange (changes : DocumentViewChangeSet κ δ) (change : DocumentViewChange κ δ) : Option (DocumentViewChangeSet κ δ) :=
  let key := change.document.key
  match changes.find key with
  | none => some (changes.insert key change)
  | some old =>
    if change.type ≠ .added ∧ old.type = .metadata then
      some (changes.insert key change)
    else if change.type = .metadata ∧ old.type ≠ .removed then
      some (changes.insert key ⟨change.document, old.type⟩)
    else if change.type = .modified ∧ old.type = .modified then
      some (changes.insert key ⟨change.document, .modified⟩)
    else if change.type = .modified ∧ old.type = .added then
      some (changes.insert key ⟨change.document, .added⟩)
    else if change.type = .removed ∧ old.type = .added then
      some (changes.erase key)
    else if change.type = .removed ∧ old.type = .modified then
      some (changes.insert key ⟨old.document, .removed⟩)
    else if change.type = .added ∧ old.type = .removed then
      some (changes.insert key ⟨change.document, .modified⟩)
    else none

def getChanges (changes : DocumentViewChangeSet κ δ) : List (DocumentViewChange κ δ) :=
  changes.changeMap.entries.map Sigma.snd

end DocumentViewChangeSet

structure ViewDocumentChanges (query : Query κ δ ν) where
  documentSet : DocumentSet query
  changeSet : DocumentViewChangeSet κ δ
  mutatedKeys : Finset κ
  needsRefill : Bool

structure ViewSnapshot (query : Query κ δ ν) where
  documents : DocumentSet query
  oldDocuments : DocumentSet query
  documentChanges : List (DocumentViewChange κ δ)
  mutatedKeys : Finset κ
  fromCache : Bool
  syncStateChanged : Bool
  excludesMetadataChanges : Bool

structure ViewChange (query : Query κ δ ν) where
  snapshot : Option (ViewSnapshot query)
  limboChanges : List (LimboDocumentChange κ)

structure View (query : Query κ δ ν) where
  documentSet : DocumentSet query
  mutatedKeys : Finset κ
  syncedDocuments : Finset κ
  limboDocuments : Finset κ
  current : Bool
  syncState : SyncState

/-- `View::View` -/
def View.init (query : Query κ δ ν) (remoteDocuments : Finset κ) : View query :=
  { documentSet := Keyed.Sorted.empty
    mutatedKeys := ∅
    syncedDocuments := remoteDocuments
    limboDocuments := ∅
    current := false
    syncState := .none }

variable {query : Query κ δ ν}

/-- The last document of a full `limit(toFirst:)`, and the first of a full `limit(toLast:)`. -/
def lastDocInLimit (documents : DocumentSet query) : Option (Document κ δ) :=
  if query.hasLimitToFirst ∧ documents.list.length = query.limit then documents.list.getLast? else none

def firstDocInLimit (documents : DocumentSet query) : Option (Document κ δ) :=
  if query.hasLimitToLast ∧ documents.list.length = query.limit then documents.list.head? else none

def shouldWaitForSyncedDocument (newDoc oldDoc : Document κ δ) : Bool :=
  oldDoc.hasLocalMutations && newDoc.hasCommittedMutations && !newDoc.hasLocalMutations

/-- The document that a batch offers the query, if it matches. -/
def newDoc? (query : Query κ δ ν) : MaybeDocument κ δ → Option (Document κ δ)
  | .document newDoc => if query.matches newDoc then some newDoc else none
  | .noDocument _ _ _ => none

namespace View

/-- A document that left a full limit means that the local cache may hold one
that belongs inside it now. -/
def outsideLimit (oldDocuments : DocumentSet query) (newDoc : Document κ δ) : Bool :=
  ((lastDocInLimit oldDocuments).any fun last => query.comparator newDoc last = .gt) ||
    (firstDocInLimit oldDocuments).any fun first => query.comparator newDoc first = .lt

/-- The change that one entry makes, and whether it calls for a refill. -/
def calculateChange (view : View query) (oldDocuments : DocumentSet query) (key : κ) (newDoc : Option (Document κ δ)) :
    Option (DocumentViewChange κ δ × Bool) :=
  match oldDocuments.find key, newDoc with
  | some oldDoc, some newDoc =>
    if oldDoc.data ≠ newDoc.data then
      if shouldWaitForSyncedDocument newDoc oldDoc then none
      else some (⟨newDoc, .modified⟩, outsideLimit oldDocuments newDoc)
    else
      let oldDocHadPendingMutations : Bool := key ∈ view.mutatedKeys
      let newDocHasPendingMutations : Bool :=
        newDoc.hasLocalMutations || (decide (key ∈ view.mutatedKeys) && newDoc.hasCommittedMutations)
      if oldDocHadPendingMutations ≠ newDocHasPendingMutations then some (⟨newDoc, .metadata⟩, false) else none
  | none, some newDoc => some (⟨newDoc, .added⟩, false)
  | some oldDoc, none =>
    some (⟨oldDoc, .removed⟩, (lastDocInLimit oldDocuments).isSome || (firstDocInLimit oldDocuments).isSome)
  | none, none => none

end View

namespace ViewDocumentChanges

def withDocument (changes : ViewDocumentChanges query) (newDoc : Document κ δ) : ViewDocumentChanges query :=
  { changes with
    documentSet := changes.documentSet.insert newDoc
    mutatedKeys :=
      if newDoc.hasLocalMutations then insert newDoc.key changes.mutatedKeys else changes.mutatedKeys.erase newDoc.key }

def withoutDocument (changes : ViewDocumentChanges query) (key : κ) : ViewDocumentChanges query :=
  { changes with documentSet := changes.documentSet.erase key, mutatedKeys := changes.mutatedKeys.erase key }

def applied (changes : ViewDocumentChanges query) (key : κ) : Option (Document κ δ) → ViewDocumentChanges query
  | some newDoc => changes.withDocument newDoc
  | none => changes.withoutDocument key

/-- One turn of the loop over the document changes. -/
def applyDocument (view : View query) (oldDocuments : DocumentSet query) (changes : ViewDocumentChanges query)
    (maybe : MaybeDocument κ δ) : Option (ViewDocumentChanges query) :=
  match view.calculateChange oldDocuments maybe.key (newDoc? query maybe) with
  | none => some changes
  | some (change, refill) =>
    (changes.changeSet.addChange change).map fun changeSet =>
      { changes.applied maybe.key (newDoc? query maybe) with
        changeSet := changeSet
        needsRefill := changes.needsRefill || refill }

/-- The document that a limit drops next. -/
def outermost (changes : ViewDocumentChanges query) : Option (Document κ δ) :=
  if query.hasLimitToFirst then changes.documentSet.list.getLast? else changes.documentSet.list.head?

def dropDocuments : Nat → ViewDocumentChanges query → Option (ViewDocumentChanges query)
  | 0, changes => some changes
  | count + 1, changes =>
    changes.outermost.bind fun oldDoc =>
      (changes.changeSet.addChange ⟨oldDoc, .removed⟩).bind fun changeSet =>
        dropDocuments count { changes.withoutDocument oldDoc.key with changeSet := changeSet }

/-- Drop documents out to meet the limit. -/
def dropToLimit (changes : ViewDocumentChanges query) : Option (ViewDocumentChanges query) :=
  if query.limitType = .none then some changes
  else dropDocuments (changes.documentSet.list.length - query.limit) changes

end ViewDocumentChanges

namespace View

/-- Where the loop starts: at the view, or at the changes that need a refill. -/
def start (view : View query) (previousChanges : Option (ViewDocumentChanges query)) : ViewDocumentChanges query :=
  match previousChanges with
  | some previous => { previous with needsRefill := false }
  | none =>
    { documentSet := view.documentSet
      changeSet := DocumentViewChangeSet.empty
      mutatedKeys := view.mutatedKeys
      needsRefill := false }

/-- The result is `none` where the source fails an assertion. -/
def computeDocumentChanges (view : View query) (docChanges : MaybeDocumentMap κ δ)
    (previousChanges : Option (ViewDocumentChanges query)) : Option (ViewDocumentChanges query) :=
  let started := view.start previousChanges
  (Transition.run (ViewDocumentChanges.applyDocument view started.documentSet) started docChanges.list).bind fun looped =>
    looped.dropToLimit.bind fun dropped =>
      if dropped.needsRefill ∧ previousChanges.isSome then none else some dropped

def shouldBeInLimbo (view : View query) (document : Document κ δ) : Bool :=
  document.key ∉ view.syncedDocuments && !document.hasLocalMutations

def applyTargetChange (view : View query) (targetChange : Option (TargetChange κ)) : Option (View query) :=
  match targetChange with
  | none => some view
  | some change =>
    let grown := view.syncedDocuments ∪ change.addedDocuments
    if change.modifiedDocuments ⊆ grown then
      some { view with syncedDocuments := grown \ change.removedDocuments, current := change.current }
    else none

def limboKeys (view : View query) : Finset κ :=
  ((view.documentSet.list.filter view.shouldBeInLimbo).map Document.key).toFinset

def updateLimboDocuments (view : View query) : View query × List (LimboDocumentChange κ) :=
  if view.current then
    let left := (view.limboDocuments \ view.limboKeys).sort
    let entered := (view.limboKeys \ view.limboDocuments).sort
    ({ view with limboDocuments := view.limboKeys }, left.map .removed ++ entered.map .added)
  else (view, [])

def changeTypePosition : ChangeType → Nat
  | .removed => 0
  | .added => 1
  | .modified => 2
  | .metadata => 2

/-- Changes are sorted by type and then by the query comparator. -/
def compareChanges (query : Query κ δ ν) (lhs rhs : DocumentViewChange κ δ) : Ordering :=
  (compare (changeTypePosition lhs.type) (changeTypePosition rhs.type)).then (query.comparator lhs.document rhs.document)

def sortChanges (query : Query κ δ ν) (changes : List (DocumentViewChange κ δ)) : List (DocumentViewChange κ δ) :=
  changes.insertionSort fun lhs rhs => (compareChanges query lhs rhs).isLE

def newSyncState (view : View query) : SyncState := if view.limboDocuments = ∅ ∧ view.current then .synced else .local

/-- The snapshot that leads from a view to the next one, if anything is new. -/
def snapshotTo (view after : View query) (changes : List (DocumentViewChange κ δ)) : Option (ViewSnapshot query) :=
  let syncStateChanged : Bool := after.syncState ≠ view.syncState
  if changes.isEmpty && !syncStateChanged then none
  else
    some
      { documents := after.documentSet
        oldDocuments := view.documentSet
        documentChanges := changes
        mutatedKeys := after.mutatedKeys
        fromCache := after.syncState = .local
        syncStateChanged := syncStateChanged
        excludesMetadataChanges := false }

def applyChanges (view : View query) (docChanges : ViewDocumentChanges query) (targetChange : Option (TargetChange κ)) :
    Option (View query × ViewChange query) :=
  if docChanges.needsRefill then none
  else
    let changes := sortChanges query docChanges.changeSet.getChanges
    let installed := { view with documentSet := docChanges.documentSet, mutatedKeys := docChanges.mutatedKeys }
    (installed.applyTargetChange targetChange).map fun targeted =>
      let (limboed, limboChanges) := targeted.updateLimboDocuments
      let after := { limboed with syncState := limboed.newSyncState }
      (after, ⟨view.snapshotTo after changes, limboChanges⟩)

def applyOnlineStateChange (view : View query) (onlineState : OnlineState) : Option (View query × ViewChange query) :=
  if view.current ∧ onlineState = .offline then
    let unchanged : ViewDocumentChanges query :=
      { documentSet := view.documentSet
        changeSet := DocumentViewChangeSet.empty
        mutatedKeys := view.mutatedKeys
        needsRefill := false }
    { view with current := false }.applyChanges unchanged none
  else some (view, ⟨none, []⟩)

end View

end FireChat.Core
