import FireChat.Proofs.Coherence

/-! Each user has a queue. While another one is signed in nothing touches it, so the
writes of a user who comes back are pending as before. -/

namespace FireChat.Core.Proofs

variable {κ δ ν υ ℓ : Type} [LinearOrder κ] [DecidableEq υ]

section Store

variable {store next : LocalStore υ κ δ} {changes : MaybeDocumentMap κ δ} {user : υ}

/-- The queue of a user who is not signed in is left alone. -/
def Leaves (store next : LocalStore υ κ δ) : Prop :=
  next.user = store.user ∧ ∀ user, user ≠ store.user → next.queues user = store.queues user

theorem leaves_withQueue (store : LocalStore υ κ δ) (cache : RemoteDocumentCache κ δ) (queue : MutationQueue κ δ) :
    Leaves store ({ store with remoteDocumentCache := cache }.withQueue queue) :=
  ⟨rfl, fun _ other => Function.update_of_ne other _ _⟩

theorem writeLocally_leaves {mutations : List (Mutation κ δ)} (written : store.writeLocally mutations = some (next, changes)) :
    Leaves store next := by
  obtain ⟨existingDocuments, _, added⟩ := Option.bind_eq_some_iff.mp written
  obtain ⟨⟨batch, queue⟩, _, same⟩ := Option.map_eq_some_iff.mp added
  obtain ⟨rfl, _⟩ := Prod.mk.inj same
  exact leaves_withQueue store store.remoteDocumentCache queue

theorem acknowledgeBatch_leaves {batchId : Nat} {mutationResults : List Timestamp} {commitVersion : Timestamp}
    (answered : store.acknowledgeBatch batchId mutationResults commitVersion = some (next, changes)) : Leaves store next := by
  unfold LocalStore.acknowledgeBatch at answered
  split at answered
  next => cases answered
  next =>
    split at answered
    next =>
      obtain ⟨cache, _, answered⟩ := Option.bind_eq_some_iff.mp answered
      obtain ⟨queue, _, answered⟩ := Option.bind_eq_some_iff.mp answered
      obtain ⟨looked, _, same⟩ := Option.map_eq_some_iff.mp answered
      obtain ⟨rfl, _⟩ := Prod.mk.inj same
      exact leaves_withQueue store cache queue
    next => cases answered

theorem rejectBatch_leaves {batchId : Nat} (refused : store.rejectBatch batchId = some (next, changes)) : Leaves store next := by
  obtain ⟨toReject, _, refused⟩ := Option.bind_eq_some_iff.mp refused
  obtain ⟨batch, _, refused⟩ := Option.bind_eq_some_iff.mp refused
  obtain ⟨queue, _, refused⟩ := Option.bind_eq_some_iff.mp refused
  obtain ⟨looked, _, same⟩ := Option.map_eq_some_iff.mp refused
  obtain ⟨rfl, _⟩ := Prod.mk.inj same
  exact leaves_withQueue store store.remoteDocumentCache queue

omit [DecidableEq υ] in
theorem applyRemoteEvent_leaves {documentUpdates : MaybeDocumentMap κ δ} {snapshotVersion : Timestamp}
    (applied : store.applyRemoteEvent documentUpdates snapshotVersion = some (next, changes)) : Leaves store next := by
  obtain ⟨⟨cache, changedDocs⟩, _, applied⟩ := Option.bind_eq_some_iff.mp applied
  simp only at applied
  split at applied
  next => cases applied
  next =>
    obtain ⟨looked, _, same⟩ := Option.map_eq_some_iff.mp applied
    obtain ⟨rfl, _⟩ := Prod.mk.inj same
    exact ⟨rfl, fun _ _ => rfl⟩

/-- A change of user starts the queue of the new one, which keeps its batches. -/
theorem handleUserChange_queues (switched : store.handleUserChange user = some (next, changes)) :
    next.user = user ∧ (∀ other, other ≠ user → next.queues other = store.queues other) ∧
      (next.queues user).queue = (store.queues user).queue := by
  obtain ⟨looked, _, same⟩ := Option.map_eq_some_iff.mp switched
  obtain ⟨rfl, _⟩ := Prod.mk.inj same
  refine ⟨rfl, fun _ other => Function.update_of_ne other _ _, ?_⟩
  have started : ∀ queue : MutationQueue κ δ, queue.start.queue = queue.queue := by
    intro queue
    unfold MutationQueue.start
    split
    · rfl
    · rfl
  exact (congrArg MutationQueue.queue (Function.update_self user (store.queues user).start store.queues)).trans (started _)

end Store

variable [Ord ν] [Std.TransOrd ν] [DecidableEq δ] [DecidableEq ℓ] {query : Query κ δ ν} {engine next final : SyncEngine υ ℓ query}
  {user other : υ}

theorem handleCredentialChange_queues (stepped : engine.step (.handleCredentialChange user) = some next)
    (changed : engine.localStore.user ≠ user) :
    next.localStore.user = user ∧ (∀ other, other ≠ user → next.localStore.queues other = engine.localStore.queues other) ∧
      (next.localStore.queues user).queue = (engine.localStore.queues user).queue := by
  simp only [SyncEngine.step, SyncEngine.handleCredentialChange, ne_eq, changed, not_false_eq_true, if_true] at stepped
  obtain ⟨⟨store, changes⟩, switched, emitted⟩ := Option.bind_eq_some_iff.mp stepped
  rw [emit_localStore emitted]
  exact handleUserChange_queues switched

/-- No event touches the queue of a user who is not signed in, other than signing in. -/
theorem step_leaves {event : SyncEvent υ ℓ κ δ} (stepped : engine.step event = some next) (absent : engine.localStore.user ≠ user)
    (stays : event ≠ .handleCredentialChange user) :
    next.localStore.user ≠ user ∧ next.localStore.queues user = engine.localStore.queues user := by
  have left : Leaves engine.localStore next.localStore →
      next.localStore.user ≠ user ∧ next.localStore.queues user = engine.localStore.queues user :=
    fun leaves => ⟨leaves.1 ▸ absent, leaves.2 user (Ne.symm absent)⟩
  cases event with
  | addQueryListener id options previous synthesizedCurrentChange =>
    obtain ⟨documents, _, added⟩ := Option.bind_eq_some_iff.mp stepped
    obtain ⟨client, _, rfl⟩ := Option.map_eq_some_iff.mp added
    exact ⟨absent, rfl⟩
  | removeQueryListener id =>
    obtain ⟨client, _, rfl⟩ := Option.map_eq_some_iff.mp stepped
    exact ⟨absent, rfl⟩
  | writeMutations mutations =>
    obtain ⟨⟨store, changes⟩, written, emitted⟩ := Option.bind_eq_some_iff.mp stepped
    exact left (emit_localStore emitted ▸ writeLocally_leaves written)
  | handleSuccessfulWrite batchId mutationResults commitVersion =>
    obtain ⟨⟨store, changes⟩, answered, emitted⟩ := Option.bind_eq_some_iff.mp stepped
    exact left (emit_localStore emitted ▸ acknowledgeBatch_leaves answered)
  | handleRejectedWrite batchId =>
    obtain ⟨⟨store, changes⟩, refused, emitted⟩ := Option.bind_eq_some_iff.mp stepped
    exact left (emit_localStore emitted ▸ rejectBatch_leaves refused)
  | applyRemoteEvent documentUpdates snapshotVersion targetChange =>
    obtain ⟨⟨store, changes⟩, applied, emitted⟩ := Option.bind_eq_some_iff.mp stepped
    exact left (emit_localStore emitted ▸ applyRemoteEvent_leaves applied)
  | handleRejectedListen => cases stepped; exact ⟨absent, rfl⟩
  | handleCredentialChange current =>
    have different : current ≠ user := fun same => stays (same ▸ rfl)
    by_cases changed : engine.localStore.user = current
    · simp only [SyncEngine.step, SyncEngine.handleCredentialChange, changed, ne_eq, not_true_eq_false, if_false] at stepped
      cases stepped
      exact ⟨absent, rfl⟩
    · obtain ⟨signedIn, others, _⟩ := handleCredentialChange_queues stepped changed
      exact ⟨signedIn ▸ different, others user (Ne.symm different)⟩
  | handleOnlineStateChange onlineState =>
    obtain ⟨client, _, rfl⟩ := Option.map_eq_some_iff.mp stepped
    exact ⟨absent, rfl⟩

/-- Whatever happens while a user is signed out, on coming back the user's batches are
pending as they were. -/
theorem writes_survive_sign_out {events : List (SyncEvent υ ℓ κ δ)} (current : engine.localStore.user = user) (different : other ≠ user)
    (away : ∀ event ∈ events, event ≠ .handleCredentialChange user)
    (ran : engine.run (.handleCredentialChange other :: events ++ [.handleCredentialChange user]) = some final) :
    final.localStore.user = user ∧ final.localStore.mutationQueue.queue = engine.localStore.mutationQueue.queue := by
  obtain ⟨back, ran, returns⟩ := Transition.run_concat.mp ran
  obtain ⟨out, leaves, ran⟩ := Transition.run_cons.mp ran
  obtain ⟨signedIn, others, _⟩ := handleCredentialChange_queues leaves (current ▸ Ne.symm different)
  let holds (state : SyncEngine υ ℓ query) : Prop :=
    state.localStore.user ≠ user ∧ state.localStore.queues user = engine.localStore.queues user
  have keeps : ∀ state event next, holds state → event ≠ .handleCredentialChange user → SyncEngine.step state event = some next → holds next := by
    rintro state event next ⟨absent, same⟩ stays stepped
    obtain ⟨still, kept⟩ := step_leaves stepped absent stays
    exact ⟨still, kept.trans same⟩
  obtain ⟨absent, same⟩ := Transition.run_invariant keeps (⟨signedIn ▸ different, others user (Ne.symm different)⟩ : holds out) away ran
  obtain ⟨signedIn, _, restored⟩ := handleCredentialChange_queues returns absent
  refine ⟨signedIn, ?_⟩
  rw [LocalStore.mutationQueue, LocalStore.mutationQueue, signedIn, restored, same, current]

/-- Another user writes while the first one is signed out, and is answered. -/
def meanwhile : List (SyncEvent Nat Nat Nat Nat) := [.writeMutations [.set 3 8], .handleSuccessfulWrite 1 [⟨7, 0⟩] ⟨7, 0⟩]

def returned : SyncEngine Nat Nat ordered :=
  ((stage 6).run (.handleCredentialChange 1 :: meanwhile ++ [.handleCredentialChange 0])).get rfl

theorem one_write_survives_sign_out :
    returned.localStore.user = 0 ∧ returned.localStore.mutationQueue.queue = (stage 6).localStore.mutationQueue.queue := by
  have away : ∀ event ∈ meanwhile, event ≠ .handleCredentialChange 0 := by
    intro event member same
    rcases List.mem_pair.mp member with rfl | rfl <;> cases same
  exact writes_survive_sign_out rfl (by decide) away (Option.some_get rfl).symm

end FireChat.Core.Proofs
