import FireChat.Core.Query
import Mathlib.Data.List.Dedup

/-! The local store: the documents that the server has sent, the mutations that it has
yet to acknowledge, and what the two make together. Mutations are those that the app's
writes come to, without preconditions, field masks and transforms. -/

namespace FireChat.Core

/-- `SnapshotVersion::None` -/
def SnapshotVersion.none : Timestamp := ⟨0, 0⟩

inductive Mutation (κ δ : Type) where
  | set (key : κ) (value : δ)
  | delete (key : κ)
deriving DecidableEq

namespace Mutation

variable {κ δ : Type}

def key : Mutation κ δ → κ
  | .set key _ => key
  | .delete key => key

def getPostMutationVersion : Option (MaybeDocument κ δ) → Timestamp
  | some (.document known) => known.version
  | _ => SnapshotVersion.none

def applyToLocalView (maybeDoc : Option (MaybeDocument κ δ)) : Mutation κ δ → MaybeDocument κ δ
  | .set key value => .document ⟨key, value, getPostMutationVersion maybeDoc, .localMutations⟩
  | .delete key => .noDocument key SnapshotVersion.none false

def applyToRemoteDocument (version : Timestamp) : Mutation κ δ → MaybeDocument κ δ
  | .set key value => .document ⟨key, value, version, .committedMutations⟩
  | .delete key => .noDocument key version true

end Mutation

structure MutationBatch (κ δ : Type) where
  batchId : Nat
  mutations : List (Mutation κ δ)

variable {κ δ : Type} [LinearOrder κ]

namespace MutationBatch

def keys (batch : MutationBatch κ δ) : List κ := (batch.mutations.map Mutation.key).dedup

def applyToLocalDocument (batch : MutationBatch κ δ) (key : κ) (maybeDoc : Option (MaybeDocument κ δ)) :
    Option (MaybeDocument κ δ) :=
  (batch.mutations.filter fun mutation => mutation.key = key).foldl (fun maybeDoc mutation => some (mutation.applyToLocalView maybeDoc))
    maybeDoc

/-- One turn of the loop in `ApplyToLocalDocumentSet`. -/
def applyToLocalDocumentAt (batch : MutationBatch κ δ) (mutatedDocuments : MaybeDocumentMap κ δ) (mutation : Mutation κ δ) :
    MaybeDocumentMap κ δ :=
  match batch.applyToLocalDocument mutation.key (mutatedDocuments.find mutation.key) with
  | some mutatedDocument => mutatedDocuments.insert mutatedDocument
  | none => mutatedDocuments

def applyToLocalDocumentSet (batch : MutationBatch κ δ) (documentSet : MaybeDocumentMap κ δ) : MaybeDocumentMap κ δ :=
  batch.mutations.foldl batch.applyToLocalDocumentAt documentSet

/-- The results of a batch on one document. Each is the version that the server gave a mutation. -/
def resultsFor (batch : MutationBatch κ δ) (mutationResults : List Timestamp) (key : κ) : List (Mutation κ δ × Timestamp) :=
  (batch.mutations.zip mutationResults).filter fun (mutation, _) => mutation.key = key

def applyToRemoteDocument (batch : MutationBatch κ δ) (mutationResults : List Timestamp) (key : κ)
    (maybeDoc : Option (MaybeDocument κ δ)) : Option (MaybeDocument κ δ) :=
  (batch.resultsFor mutationResults key).foldl (fun _ (mutation, version) => some (mutation.applyToRemoteDocument version)) maybeDoc

/-- `doc_versions` -/
def docVersion (batch : MutationBatch κ δ) (mutationResults : List Timestamp) (key : κ) : Option Timestamp :=
  (batch.resultsFor mutationResults key).getLast?.map Prod.snd

end MutationBatch

/-- `batchesByDocumentKey` is the index of the batches in the queue. -/
structure MutationQueue (κ δ : Type) where
  queue : List (MutationBatch κ δ)
  batchesByDocumentKey : List (κ × Nat)
  nextBatchId : Nat

/-! Results are `none` where the source fails an assertion. -/

namespace MutationQueue

def empty : MutationQueue κ δ := ⟨[], [], 1⟩

def start (queue : MutationQueue κ δ) : MutationQueue κ δ :=
  if queue.queue.isEmpty then { queue with nextBatchId := 1 } else queue

def addMutationBatch (queue : MutationQueue κ δ) (mutations : List (Mutation κ δ)) : Option (MutationBatch κ δ × MutationQueue κ δ) :=
  let batchId := queue.nextBatchId
  if mutations = [] ∨ ¬(queue.queue.getLast?.all fun prior => prior.batchId < batchId) then none
  else
    let batch : MutationBatch κ δ := ⟨batchId, mutations⟩
    some
      (batch,
        { queue := queue.queue ++ [batch]
          batchesByDocumentKey := mutations.foldl (fun index mutation => index.insert (mutation.key, batchId)) queue.batchesByDocumentKey
          nextBatchId := batchId + 1 })

/-- A batch is looked up by its distance to the front of the queue. -/
def lookupMutationBatch (queue : MutationQueue κ δ) (batchId : Nat) : Option (Option (MutationBatch κ δ)) :=
  match queue.queue with
  | [] => some none
  | front :: _ =>
    if batchId < front.batchId then some none
    else
      match queue.queue[batchId - front.batchId]? with
      | none => some none
      | some batch => if batch.batchId = batchId then some (some batch) else none

def allMutationBatchesWithIds (queue : MutationQueue κ δ) : List Nat → Option (List (MutationBatch κ δ))
  | [] => some []
  | batchId :: batchIds =>
    (queue.lookupMutationBatch batchId).bind fun batch =>
      (queue.allMutationBatchesWithIds batchIds).map fun batches => batch.toList ++ batches

/-- The batches of the index entries whose key is selected, in the order of their ids. -/
def allMutationBatchesAffecting (queue : MutationQueue κ δ) (selects : κ → Bool) : Option (List (MutationBatch κ δ)) :=
  queue.allMutationBatchesWithIds
    (((queue.batchesByDocumentKey.filter fun reference => selects reference.1).map Prod.snd).dedup.insertionSort (· ≤ ·))

def allMutationBatchesAffectingDocumentKeys (queue : MutationQueue κ δ) (documentKeys : List κ) : Option (List (MutationBatch κ δ)) :=
  queue.allMutationBatchesAffecting fun key => key ∈ documentKeys

def allMutationBatchesAffectingQuery {ν : Type} (queue : MutationQueue κ δ) (query : Query κ δ ν) :
    Option (List (MutationBatch κ δ)) :=
  queue.allMutationBatchesAffecting query.path

def removeMutationBatch (queue : MutationQueue κ δ) (batch : MutationBatch κ δ) : Option (MutationQueue κ δ) :=
  match queue.queue with
  | [] => none
  | head :: rest =>
    if head.batchId = batch.batchId then
      some
        { queue with
          queue := rest
          batchesByDocumentKey := batch.mutations.foldl (fun index mutation => index.erase (mutation.key, batch.batchId))
            queue.batchesByDocumentKey }
    else none

def performConsistencyCheck (queue : MutationQueue κ δ) : Option (MutationQueue κ δ) :=
  if queue.queue.isEmpty && !queue.batchesByDocumentKey.isEmpty then none else some queue

end MutationQueue

/-- The documents that the server has sent, each with the time at which it was read. -/
structure RemoteDocumentCache (κ δ : Type) [LinearOrder κ] where
  docs : MaybeDocumentMap κ δ
  readTimes : κ → Timestamp

namespace RemoteDocumentCache

def empty : RemoteDocumentCache κ δ := ⟨Keyed.Sorted.empty, fun _ => SnapshotVersion.none⟩

def add (cache : RemoteDocumentCache κ δ) (document : MaybeDocument κ δ) (readTime : Timestamp) : RemoteDocumentCache κ δ where
  docs := cache.docs.insert document
  readTimes := Function.update cache.readTimes document.key readTime

def remove (cache : RemoteDocumentCache κ δ) (key : κ) : RemoteDocumentCache κ δ := { cache with docs := cache.docs.erase key }

def get (cache : RemoteDocumentCache κ δ) (key : κ) : Option (MaybeDocument κ δ) := cache.docs.find key

def getMatching {ν : Type} (cache : RemoteDocumentCache κ δ) (query : Query κ δ ν) (sinceReadTime : Timestamp) : MaybeDocumentMap κ δ :=
  cache.docs.filter fun maybeDoc => sinceReadTime < cache.readTimes maybeDoc.key && maybeDoc.document?.any query.matches

@[simp] theorem get_add (cache : RemoteDocumentCache κ δ) (document : MaybeDocument κ δ) (readTime : Timestamp) (key : κ) :
    (cache.add document readTime).get key = if document.key = key then some document else cache.get key :=
  Keyed.Sorted.find_insert ..

@[simp] theorem readTimes_add (cache : RemoteDocumentCache κ δ) (document : MaybeDocument κ δ) (readTime : Timestamp) (key : κ) :
    (cache.add document readTime).readTimes key = if document.key = key then readTime else cache.readTimes key := by
  simp only [add, Function.update_apply, eq_comm]

@[simp] theorem get_remove (cache : RemoteDocumentCache κ δ) (gone key : κ) :
    (cache.remove gone).get key = if gone = key then none else cache.get key :=
  Keyed.Sorted.find_erase ..

theorem find_getMatching {ν : Type} (cache : RemoteDocumentCache κ δ) (query : Query κ δ ν) (sinceReadTime : Timestamp) (key : κ) :
    (cache.getMatching query sinceReadTime).find key = (cache.get key).filter fun maybeDoc =>
      sinceReadTime < cache.readTimes maybeDoc.key && maybeDoc.document?.any query.matches :=
  Keyed.Sorted.find_filter ..

end RemoteDocumentCache

/-- `queues` has the queue of every user that this device has written as. -/
structure LocalStore (υ κ δ : Type) [LinearOrder κ] where
  remoteDocumentCache : RemoteDocumentCache κ δ
  queues : υ → MutationQueue κ δ
  user : υ
  lastRemoteSnapshotVersion : Timestamp

namespace LocalStore

variable {υ : Type}

def initial (user : υ) : LocalStore υ κ δ := ⟨RemoteDocumentCache.empty, fun _ => MutationQueue.empty, user, SnapshotVersion.none⟩

def mutationQueue (store : LocalStore υ κ δ) : MutationQueue κ δ := store.queues store.user

/-- The documents with all pending mutations on top, where missing ones count as deleted. -/
def getLocalViewOfDocuments (store : LocalStore υ κ δ) (baseDocs : List (κ × Option (MaybeDocument κ δ))) :
    Option (MaybeDocumentMap κ δ) :=
  (store.mutationQueue.allMutationBatchesAffectingDocumentKeys (baseDocs.map Prod.fst)).map fun batches =>
    baseDocs.foldl
      (fun results (key, baseDoc) =>
        let localView := batches.foldl (fun localView batch => batch.applyToLocalDocument key localView) baseDoc
        results.insert (localView.getD (.noDocument key SnapshotVersion.none false)))
      Keyed.Sorted.empty

def getDocuments (store : LocalStore υ κ δ) (keys : List κ) : Option (MaybeDocumentMap κ δ) :=
  store.getLocalViewOfDocuments (keys.map fun key => (key, store.remoteDocumentCache.get key))

/-- What a pending mutation makes of the results of a query. -/
def applyMutation {ν : Type} (query : Query κ δ ν) (results : MaybeDocumentMap κ δ) (mutation : Mutation κ δ) : MaybeDocumentMap κ δ :=
  if query.path mutation.key then
    match mutation.applyToLocalView (results.find mutation.key) with
    | .document mutatedDoc => results.insert (.document mutatedDoc)
    | .noDocument _ _ _ => results.erase mutation.key
  else results

def getDocumentsMatchingQuery {ν : Type} (store : LocalStore υ κ δ) (query : Query κ δ ν) (sinceReadTime : Timestamp) :
    Option (MaybeDocumentMap κ δ) :=
  (store.mutationQueue.allMutationBatchesAffectingQuery query).map fun matchingBatches =>
    let results := (matchingBatches.flatMap MutationBatch.mutations).foldl (applyMutation query)
      (store.remoteDocumentCache.getMatching query sinceReadTime)
    results.filter fun maybeDoc => maybeDoc.document?.any query.matches

variable [DecidableEq υ]

def withQueue (store : LocalStore υ κ δ) (queue : MutationQueue κ δ) : LocalStore υ κ δ :=
  { store with queues := Function.update store.queues store.user queue }

def writeLocally (store : LocalStore υ κ δ) (mutations : List (Mutation κ δ)) :
    Option (LocalStore υ κ δ × MaybeDocumentMap κ δ) :=
  (store.getDocuments (mutations.map Mutation.key).dedup).bind fun existingDocuments =>
    (store.mutationQueue.addMutationBatch mutations).map fun (batch, queue) =>
      (store.withQueue queue, batch.applyToLocalDocumentSet existingDocuments)

/-- What an acknowledged batch does to one cached document. -/
def applyResultTo (batch : MutationBatch κ δ) (mutationResults : List Timestamp) (commitVersion : Timestamp)
    (cache : RemoteDocumentCache κ δ) (key : κ) : Option (RemoteDocumentCache κ δ) :=
  (batch.docVersion mutationResults key).bind fun ackVersion =>
    let remoteDoc := cache.get key
    if remoteDoc.all fun doc => doc.version < ackVersion then
      match batch.applyToRemoteDocument mutationResults key remoteDoc with
      | some doc => some (cache.add doc commitVersion)
      | none => if remoteDoc.isNone then some cache else none
    else some cache

def acknowledgeBatch (store : LocalStore υ κ δ) (batchId : Nat) (mutationResults : List Timestamp) (commitVersion : Timestamp) :
    Option (LocalStore υ κ δ × MaybeDocumentMap κ δ) :=
  match store.mutationQueue.queue with
  | [] => none
  | batch :: _ =>
    if batch.batchId = batchId ∧ batch.mutations.length = mutationResults.length then
      (Transition.run (applyResultTo batch mutationResults commitVersion) store.remoteDocumentCache batch.keys).bind fun cache =>
        ((store.mutationQueue.removeMutationBatch batch).bind MutationQueue.performConsistencyCheck).bind fun queue =>
          let next := { store with remoteDocumentCache := cache }.withQueue queue
          (next.getDocuments batch.keys).map fun changes => (next, changes)
    else none

def rejectBatch (store : LocalStore υ κ δ) (batchId : Nat) : Option (LocalStore υ κ δ × MaybeDocumentMap κ δ) :=
  (store.mutationQueue.lookupMutationBatch batchId).bind fun toReject =>
    toReject.bind fun batch =>
      ((store.mutationQueue.removeMutationBatch batch).bind MutationQueue.performConsistencyCheck).bind fun queue =>
        let next := store.withQueue queue
        (next.getDocuments batch.keys).map fun changes => (next, changes)

/-- One turn of the loop in `PopulateDocumentChanges`. -/
def populateDocument (existingDocs : MaybeDocumentMap κ δ) (readTime : Timestamp)
    (state : RemoteDocumentCache κ δ × MaybeDocumentMap κ δ) (doc : MaybeDocument κ δ) :
    Option (RemoteDocumentCache κ δ × MaybeDocumentMap κ δ) :=
  let (cache, changedDocs) := state
  if doc.document?.isNone && doc.version = SnapshotVersion.none then some (cache.remove doc.key, changedDocs.insert doc)
  else if (existingDocs.find doc.key).all fun existingDoc =>
      existingDoc.version < doc.version || (doc.version = existingDoc.version && existingDoc.hasPendingWrites) then
    if readTime = SnapshotVersion.none then none else some (cache.add doc readTime, changedDocs.insert doc)
  else some state

def applyRemoteEvent (store : LocalStore υ κ δ) (documentUpdates : MaybeDocumentMap κ δ) (snapshotVersion : Timestamp) :
    Option (LocalStore υ κ δ × MaybeDocumentMap κ δ) :=
  (Transition.run (populateDocument store.remoteDocumentCache.docs snapshotVersion) (store.remoteDocumentCache, Keyed.Sorted.empty)
      documentUpdates.list).bind fun (cache, changedDocs) =>
    if snapshotVersion ≠ SnapshotVersion.none ∧ snapshotVersion < store.lastRemoteSnapshotVersion then none
    else
      let version := if snapshotVersion = SnapshotVersion.none then store.lastRemoteSnapshotVersion else snapshotVersion
      let next := { store with remoteDocumentCache := cache, lastRemoteSnapshotVersion := version }
      (next.getLocalViewOfDocuments (changedDocs.list.map fun doc => (doc.key, some doc))).map fun changes => (next, changes)

def handleUserChange (store : LocalStore υ κ δ) (user : υ) : Option (LocalStore υ κ δ × MaybeDocumentMap κ δ) :=
  let oldBatches := store.mutationQueue.queue
  let queue := (store.queues user).start
  let next := { store with user := user }.withQueue queue
  (next.getDocuments ((oldBatches ++ queue.queue).flatMap fun batch => batch.mutations.map Mutation.key).dedup).map
    fun changes => (next, changes)

end LocalStore

end FireChat.Core
