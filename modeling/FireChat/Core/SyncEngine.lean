import FireChat.Core.EventManager
import FireChat.Core.QueryEngine

/-! The sync engine: what the app, the server and the credentials do to the local
store, and what the views are told of it. Views share the store and nothing else,
so the engine is modelled at one query. -/

namespace FireChat.Core

variable {κ δ ν : Type} [LinearOrder κ] [DecidableEq δ] [Ord ν] [Std.TransOrd ν] {query : Query κ δ ν}

structure SyncEngine (υ ℓ : Type) (query : Query κ δ ν) where
  localStore : LocalStore υ κ δ
  client : Client ℓ query

/-- A listener comes with what the target cache has of the query, which a new view starts
from, and `applyRemoteEvent` with the target change of this query's target. -/
inductive SyncEvent (υ ℓ κ δ : Type) [LinearOrder κ] where
  | addQueryListener (id : ℓ) (options : ListenOptions) (previous : PreviousResults κ) (synthesizedCurrentChange : Option (TargetChange κ))
  | removeQueryListener (id : ℓ)
  | writeMutations (mutations : List (Mutation κ δ))
  | handleSuccessfulWrite (batchId : Nat) (mutationResults : List Timestamp) (commitVersion : Timestamp)
  | handleRejectedWrite (batchId : Nat)
  | applyRemoteEvent (documentUpdates : MaybeDocumentMap κ δ) (snapshotVersion : Timestamp) (targetChange : Option (TargetChange κ))
  | handleRejectedListen
  | handleCredentialChange (user : υ)
  | handleOnlineStateChange (onlineState : OnlineState)

namespace SyncEngine

variable {υ ℓ : Type}

def start (user : υ) : SyncEngine υ ℓ query := ⟨LocalStore.initial user, Client.start⟩

/-- A query is run again only where its view needs a refill, and then without its
previous results. Running it changes nothing. -/
def emitNewSnapshotsAndNotifyLocalStore (engine : SyncEngine υ ℓ query) (targetChange : Option (TargetChange κ)) :
    LocalStore υ κ δ × MaybeDocumentMap κ δ → Option (SyncEngine υ ℓ query)
  | (localStore, changes) =>
    (localStore.executeQuery query .none).bind fun refill =>
      (engine.client.emitNewSnapshots changes refill targetChange).map fun client => ⟨localStore, client⟩

variable [DecidableEq υ] [DecidableEq ℓ]

def handleCredentialChange (engine : SyncEngine υ ℓ query) (user : υ) : Option (SyncEngine υ ℓ query) :=
  if engine.localStore.user ≠ user then (engine.localStore.handleUserChange user).bind (engine.emitNewSnapshotsAndNotifyLocalStore none)
  else some engine

/-- The result is `none` where the source fails an assertion, or adds a listener that is there already. -/
def step (engine : SyncEngine υ ℓ query) : SyncEvent υ ℓ κ δ → Option (SyncEngine υ ℓ query)
  | .addQueryListener id options previous synthesizedCurrentChange =>
    (engine.localStore.executeQuery query previous).bind fun documents =>
      (engine.client.addQueryListener id options documents previous.remoteKeys.toFinset synthesizedCurrentChange).map fun client =>
        { engine with client := client }
  | .removeQueryListener id => (engine.client.removeQueryListener id).map fun client => { engine with client := client }
  | .writeMutations mutations => (engine.localStore.writeLocally mutations).bind (engine.emitNewSnapshotsAndNotifyLocalStore none)
  | .handleSuccessfulWrite batchId mutationResults commitVersion =>
    (engine.localStore.acknowledgeBatch batchId mutationResults commitVersion).bind (engine.emitNewSnapshotsAndNotifyLocalStore none)
  | .handleRejectedWrite batchId => (engine.localStore.rejectBatch batchId).bind (engine.emitNewSnapshotsAndNotifyLocalStore none)
  | .applyRemoteEvent documentUpdates snapshotVersion targetChange =>
    (engine.localStore.applyRemoteEvent documentUpdates snapshotVersion).bind (engine.emitNewSnapshotsAndNotifyLocalStore targetChange)
  | .handleRejectedListen => some { engine with client := engine.client.onError }
  | .handleCredentialChange user => engine.handleCredentialChange user
  | .handleOnlineStateChange onlineState =>
    (engine.client.handleOnlineStateChange onlineState).map fun client => { engine with client := client }

abbrev run (engine : SyncEngine υ ℓ query) (events : List (SyncEvent υ ℓ κ δ)) : Option (SyncEngine υ ℓ query) :=
  Transition.run step engine events

end SyncEngine

end FireChat.Core
