import FireChat.Core.SyncEngine
import FireChat.Proofs.ListeningProgress
import FireChat.Proofs.LocalStores
import FireChat.Proofs.QueryEngines

/-! The sync engine in every run. Writes, answers to them, snapshots from the server and
changes of user and connection may come in any order: no assertion fails, and the view
of a query is what the query finds in the local store. -/

namespace FireChat.Core.Proofs

variable {κ δ ν υ ℓ : Type} [LinearOrder κ]

section Store

variable {query : Query κ δ ν} {store next : LocalStore υ κ δ}

theorem Reports.leads {changes : MaybeDocumentMap κ δ} (reports : Reports store next changes) :
    Leads query changes (matching query store) (matching query next) := by
  intro key
  have report := reports key
  cases found : changes.find key with
  | none =>
    rw [found] at report
    exact congrArg (Option.filter query.matches) report
  | some maybe =>
    rw [found] at report
    exact (newDoc_filter maybe).trans (congrArg (Option.filter query.matches) report)

end Store

variable [Ord ν] {query : Query κ δ ν}

section Clients

variable {client next : Client ℓ query}

theorem onViewSnapshot_view {snapshot : ViewSnapshot query} (offered : client.onViewSnapshot snapshot = some next) :
    next.view = client.view := by
  unfold Client.onViewSnapshot at offered
  split at offered
  next => cases offered; rfl
  next =>
    obtain ⟨listeners, _, rfl⟩ := Option.map_eq_some_iff.mp offered
    rfl

theorem onViewChange_view {viewChange : ViewChange query} (dispatched : client.onViewChange viewChange = some next) :
    next.view = client.view := by
  unfold Client.onViewChange at dispatched
  split at dispatched
  next => cases dispatched; rfl
  next => exact onViewSnapshot_view dispatched

theorem removeQueryListener_view [DecidableEq ℓ] {id : ℓ} (removed : client.removeQueryListener id = some next) :
    next.view = client.view ∨ next.view = none := by
  unfold Client.removeQueryListener at removed
  split at removed
  next => cases removed; exact .inl rfl
  next =>
    simp only at removed
    split at removed
    next =>
      split at removed
      next => cases removed
      next => cases removed; exact .inr rfl
    next => cases removed; exact .inl rfl

variable [Std.TransOrd ν]

theorem sound_tracked {view : View query} (sound : Sound Anything client) (held : client.view = some view) :
    Tracked view.documentSet view.mutatedKeys := by
  obtain ⟨onlineState, info, viewed⟩ := client
  cases held
  cases info with
  | none => cases sound
  | some info =>
    have opened : Open Anything view onlineState info := sound
    exact opened.tracked

theorem handleOnlineStateChange_view {onlineState : OnlineState} (sound : Sound Anything client)
    (handled : client.handleOnlineStateChange onlineState = some next) {view : View query} (held : next.view = some view) :
    ∃ before, client.view = some before ∧ view.documentSet = before.documentSet := by
  obtain ⟨informed, applied, rfl⟩ := Option.map_eq_some_iff.mp handled
  cases viewed : client.view with
  | none =>
    rw [viewed] at applied
    cases applied
    cases viewed.symm.trans held
  | some before =>
    rw [viewed] at applied
    obtain ⟨⟨after, viewChange⟩, changed, dispatched⟩ := Option.bind_eq_some_iff.mp applied
    obtain ⟨same, other, ran, _, documents, _⟩ := applyOnlineStateChange_emitted (sound_tracked sound viewed) onlineState
    cases ran.symm.trans changed
    simp only at dispatched
    split at dispatched
    next =>
      cases (onViewChange_view dispatched).symm.trans held
      exact ⟨before, rfl, documents⟩
    next => cases dispatched

variable [DecidableEq δ]

/-- Only the first listener opens a view. -/
theorem addQueryListener_view [DecidableEq ℓ] {id : ℓ} {options : ListenOptions} {documents : MaybeDocumentMap κ δ} {remoteKeys : Finset κ}
    {synthesizedCurrentChange : Option (TargetChange κ)}
    (added : client.addQueryListener id options documents remoteKeys synthesizedCurrentChange = some next) :
    next.view = client.view ∨ client.info = none ∧ ∃ view snapshot,
      initializeView query documents remoteKeys synthesizedCurrentChange = some (view, snapshot) ∧ next.view = some view := by
  unfold Client.addQueryListener at added
  simp only at added
  split at added
  next => cases added
  next =>
    obtain ⟨registered, _, added⟩ := Option.bind_eq_some_iff.mp added
    split at added
    next firstListen =>
      unfold Client.listen at added
      split at added
      next => cases added
      next =>
        obtain ⟨⟨view, snapshot⟩, opened, dispatched⟩ := Option.bind_eq_some_iff.mp added
        exact .inr ⟨Option.isNone_iff_eq_none.mp firstListen, view, snapshot, opened, onViewSnapshot_view dispatched⟩
    next =>
      cases added
      exact .inl rfl

end Clients

variable [Std.TransOrd ν] [DecidableEq δ]

/-- What holds of the engine between any two events. -/
structure Consistent (engine : SyncEngine υ ℓ query) : Prop where
  intact : Intact engine.localStore
  sound : Sound Anything engine.client
  backed : ∀ view, engine.client.view = some view → Backed view.documentSet (matching query engine.localStore)

theorem anything_law : @Law _ _ _ _ _ _ ℓ _ query (fun _ => True) Anything :=
  ⟨fun _ _ => trivial, fun _ _ => trivial, fun _ _ _ _ => ⟨trivial, trivial⟩⟩

variable {engine : SyncEngine υ ℓ query}

theorem emit_localStore {store : LocalStore υ κ δ} {changes : MaybeDocumentMap κ δ} {targetChange : Option (TargetChange κ)}
    {next : SyncEngine υ ℓ query}
    (emitted : engine.emitNewSnapshotsAndNotifyLocalStore targetChange (store, changes) = some next) : next.localStore = store := by
  obtain ⟨refill, _, notified⟩ := Option.bind_eq_some_iff.mp emitted
  obtain ⟨client, _, rfl⟩ := Option.map_eq_some_iff.mp notified
  rfl

/-- How a view comes to be what it is after an event. -/
inductive Moves (engine next : SyncEngine υ ℓ query) : Prop where
  | kept (store : next.localStore = engine.localStore)
      (documents : ∀ after, next.client.view = some after →
        ∃ before, engine.client.view = some before ∧ after.documentSet = before.documentSet)
  | opened (store : next.localStore = engine.localStore) {docs : MaybeDocumentMap κ δ}
      (serves : Serves query docs (matching query next.localStore))
      (initialized : ∀ after, next.client.view = some after → ∃ remoteKeys synthesizedCurrentChange snapshot,
        initializeView query docs remoteKeys synthesizedCurrentChange = some (after, snapshot))
  | emitted {changes refill : MaybeDocumentMap κ δ}
      (leads : Leads query changes (matching query engine.localStore) (matching query next.localStore))
      (lists : Lists query refill (matching query next.localStore))
      (emits : ∀ after, next.client.view = some after → ∃ before targetChange viewChange,
        engine.client.view = some before ∧ before.emit changes refill targetChange = some (after, viewChange))

theorem Moves.backed {next : SyncEngine υ ℓ query} (moves : Moves engine next) (consistent : Consistent engine) {after : View query}
    (held : next.client.view = some after) : Backed after.documentSet (matching query next.localStore) := by
  cases moves with
  | kept store documents =>
    obtain ⟨before, viewed, same⟩ := documents after held
    rw [same, store]
    exact consistent.backed before viewed
  | opened store serves initialized =>
    obtain ⟨remoteKeys, synthesizedCurrentChange, snapshot, opened⟩ := initialized after held
    obtain ⟨all, _, lists⟩ := executeQuery_lists consistent.intact query
    exact initializeView_backed serves (store ▸ lists) opened
  | emitted leads lists emits =>
    obtain ⟨before, targetChange, viewChange, viewed, emitted⟩ := emits after held
    exact emit_backed (sound_tracked consistent.sound viewed) (consistent.backed before viewed) leads lists emitted

variable [DecidableEq ℓ]

/-- After a change of the store the view takes it in, with a refill at hand. -/
theorem emitNewSnapshots_moves {store : LocalStore υ κ δ} {changes : MaybeDocumentMap κ δ} {targetChange : Option (TargetChange κ)}
    (consistent : Consistent engine) (intact : Intact store) (reports : Reports engine.localStore store changes)
    (known : ∀ view, engine.client.view = some view → TargetKnown view targetChange) :
    ∃ next, engine.emitNewSnapshotsAndNotifyLocalStore targetChange (store, changes) = some next ∧ next.localStore = store ∧
      Sound Anything next.client ∧ Moves engine next := by
  obtain ⟨refill, executed, lists⟩ := executeQuery_lists intact query
  have leads : Leads query changes (matching query engine.localStore) (matching query store) := reports.leads
  have permitted : Permitted engine.client (.emitNewSnapshots changes refill targetChange) := by
    intro view held
    refine ⟨known view held, ?_⟩
    intro computed ran _
    exact backed_calm (sound_tracked consistent.sound held) (consistent.backed view held) leads lists ran
  obtain ⟨client, stepped⟩ := step_enabled consistent.sound permitted
  refine ⟨⟨store, client⟩, ?_, rfl, step_sound anything_law consistent.sound trivial stepped, .emitted leads lists ?_⟩
  · simp only [SyncEngine.emitNewSnapshotsAndNotifyLocalStore, executed, Option.bind_some]
    exact Option.map_eq_some_iff.mpr ⟨client, stepped, rfl⟩
  · intro after held
    simp only [Client.step, Client.emitNewSnapshots] at stepped
    cases viewed : engine.client.view with
    | none =>
      rw [viewed] at stepped
      cases stepped
      cases viewed.symm.trans held
    | some before =>
      rw [viewed] at stepped
      obtain ⟨⟨other, viewChange⟩, emitted, dispatched⟩ := Option.bind_eq_some_iff.mp stepped
      cases (onViewChange_view dispatched).symm.trans held
      exact ⟨before, targetChange, viewChange, rfl, emitted⟩

/-- What the app, the event manager and the remote store owe the engine with each event. -/
def Admissible (engine : SyncEngine υ ℓ query) : SyncEvent υ ℓ κ δ → Prop
  | .addQueryListener id _ previous synthesizedCurrentChange =>
    (∀ info, engine.client.info = some info → id ∉ info.listeners.map Registered.id) ∧
      (engine.client.info = none → TargetKnown (View.init query previous.remoteKeys.toFinset) synthesizedCurrentChange ∧
        Resumable query engine.localStore previous)
  | .writeMutations mutations => mutations ≠ []
  | .handleSuccessfulWrite batchId mutationResults commitVersion => SnapshotVersion.none < commitVersion ∧
      ∃ batch rest, engine.localStore.mutationQueue.queue = batch :: rest ∧ batch.batchId = batchId ∧
        batch.mutations.length = mutationResults.length
  | .handleRejectedWrite batchId => ∃ batch rest, engine.localStore.mutationQueue.queue = batch :: rest ∧ batch.batchId = batchId
  | .applyRemoteEvent documentUpdates snapshotVersion targetChange =>
    Timely engine.localStore documentUpdates snapshotVersion ∧ ∀ view, engine.client.view = some view → TargetKnown view targetChange
  | .removeQueryListener _ | .handleRejectedListen | .handleCredentialChange _ | .handleOnlineStateChange _ => True

/-- Every event that is admissible goes through. -/
theorem admissible_moves [DecidableEq υ] {event : SyncEvent υ ℓ κ δ} (consistent : Consistent engine) (admissible : Admissible engine event) :
    ∃ next, engine.step event = some next ∧ Intact next.localStore ∧ Sound Anything next.client ∧ Moves engine next := by
  have unknown : ∀ view, engine.client.view = some view → TargetKnown view none := fun _ _ _ none => by cases none
  cases event with
  | addQueryListener id options previous synthesizedCurrentChange =>
    obtain ⟨fresh, first⟩ := admissible
    obtain ⟨documents, executed, _⟩ := executeQuery_cases consistent.intact query previous
    have permitted : Permitted engine.client (.addQueryListener id options documents previous.remoteKeys.toFinset synthesizedCurrentChange) :=
      ⟨fresh, fun none => (first none).1⟩
    obtain ⟨client, stepped⟩ := step_enabled consistent.sound permitted
    have sound := step_sound anything_law consistent.sound trivial stepped
    refine ⟨{ engine with client := client }, ?_, consistent.intact, sound, ?_⟩
    · simp only [SyncEngine.step, executed, Option.bind_some]
      exact Option.map_eq_some_iff.mpr ⟨client, stepped, rfl⟩
    · rcases addQueryListener_view stepped with same | ⟨none, view, snapshot, initialized, viewed⟩
      · exact .kept rfl fun after held => ⟨after, same ▸ held, rfl⟩
      · obtain ⟨docs, again, serves⟩ := executeQuery_serves consistent.intact (first none).2
        cases executed.symm.trans again
        refine .opened rfl serves ?_
        intro after held
        cases viewed.symm.trans held
        exact ⟨previous.remoteKeys.toFinset, synthesizedCurrentChange, snapshot, initialized⟩
  | removeQueryListener id =>
    have permitted : Permitted engine.client (.removeQueryListener id : ClientEvent ℓ κ δ) := trivial
    obtain ⟨client, stepped⟩ := step_enabled consistent.sound permitted
    have sound := step_sound anything_law consistent.sound trivial stepped
    refine ⟨{ engine with client := client }, Option.map_eq_some_iff.mpr ⟨client, stepped, rfl⟩, consistent.intact, sound, .kept rfl ?_⟩
    intro after held
    rcases removeQueryListener_view stepped with same | gone
    · exact ⟨after, same ▸ held, rfl⟩
    · cases gone.symm.trans held
  | writeMutations mutations =>
    obtain ⟨batch, queue, changes, written, intact, reports, _⟩ := writeLocally_spec consistent.intact admissible
    obtain ⟨next, emitted, store, sound, moves⟩ := emitNewSnapshots_moves consistent intact reports unknown
    exact ⟨next, Option.bind_eq_some_iff.mpr ⟨_, written, emitted⟩, store ▸ intact, sound, moves⟩
  | handleSuccessfulWrite batchId mutationResults commitVersion =>
    obtain ⟨committed, batch, rest, front, rfl, complete⟩ := admissible
    obtain ⟨cache, queue, changes, acknowledged, intact, reports, _⟩ := acknowledgeBatch_spec consistent.intact front complete committed
    obtain ⟨next, emitted, store, sound, moves⟩ := emitNewSnapshots_moves consistent intact reports unknown
    exact ⟨next, Option.bind_eq_some_iff.mpr ⟨_, acknowledged, emitted⟩, store ▸ intact, sound, moves⟩
  | handleRejectedWrite batchId =>
    obtain ⟨batch, rest, front, rfl⟩ := admissible
    obtain ⟨queue, changes, rejected, intact, reports, _⟩ := rejectBatch_spec consistent.intact front
    obtain ⟨next, emitted, store, sound, moves⟩ := emitNewSnapshots_moves consistent intact reports unknown
    exact ⟨next, Option.bind_eq_some_iff.mpr ⟨_, rejected, emitted⟩, store ▸ intact, sound, moves⟩
  | applyRemoteEvent documentUpdates snapshotVersion targetChange =>
    obtain ⟨timely, known⟩ := admissible
    obtain ⟨cache, version, changes, applied, intact, reports, _⟩ := applyRemoteEvent_spec consistent.intact timely
    obtain ⟨next, emitted, store, sound, moves⟩ := emitNewSnapshots_moves consistent intact reports known
    exact ⟨next, Option.bind_eq_some_iff.mpr ⟨_, applied, emitted⟩, store ▸ intact, sound, moves⟩
  | handleRejectedListen =>
    refine ⟨{ engine with client := engine.client.onError }, rfl, consistent.intact, trivial, .kept rfl ?_⟩
    intro view held
    cases held
  | handleCredentialChange user =>
    simp only [SyncEngine.step, SyncEngine.handleCredentialChange]
    split
    next =>
      obtain ⟨switched, changes, handled, intact, reports, _⟩ := handleUserChange_spec consistent.intact user
      obtain ⟨next, emitted, store, sound, moves⟩ := emitNewSnapshots_moves consistent intact reports unknown
      exact ⟨next, Option.bind_eq_some_iff.mpr ⟨_, handled, emitted⟩, store ▸ intact, sound, moves⟩
    next => exact ⟨engine, rfl, consistent.intact, consistent.sound, .kept rfl fun after held => ⟨after, held, rfl⟩⟩
  | handleOnlineStateChange onlineState =>
    obtain ⟨client, handled, sound, _⟩ := handleOnlineStateChange_sound (fun _ _ => trivial) onlineState consistent.sound
    exact ⟨{ engine with client := client }, Option.map_eq_some_iff.mpr ⟨client, handled, rfl⟩, consistent.intact, sound,
      .kept rfl fun _ held => handleOnlineStateChange_view consistent.sound handled held⟩

theorem admissible_step [DecidableEq υ] {event : SyncEvent υ ℓ κ δ} (consistent : Consistent engine) (admissible : Admissible engine event) :
    ∃ next, engine.step event = some next ∧ Consistent next := by
  obtain ⟨next, stepped, intact, sound, moves⟩ := admissible_moves consistent admissible
  exact ⟨next, stepped, intact, sound, fun view held => moves.backed consistent held⟩

theorem admissible_run [DecidableEq υ] {user : υ} {events : List (SyncEvent υ ℓ κ δ)}
    (admissible : @Transition.Stepwise (SyncEngine υ ℓ query) _ SyncEngine.step Admissible (SyncEngine.start user) events) :
    ∃ final : SyncEngine υ ℓ query, (SyncEngine.start user).run events = some final ∧ Consistent final := by
  have initial : Consistent (SyncEngine.start user : SyncEngine υ ℓ query) := by
    refine ⟨intact_initial user, trivial, ?_⟩
    intro view held
    cases held
  exact Transition.stepwise_total (fun _ _ consistent legal => admissible_step consistent legal) initial admissible

end FireChat.Core.Proofs
