import FireChat.Proofs.LocalDocuments

/-! The operations of the local store. Called as the sync engine may call them they
succeed, keep the queues indexed and report every document that they change. -/

namespace FireChat.Core.Proofs

variable {κ δ : Type}

variable [LinearOrder κ]

section Acknowledgements

variable (batch : MutationBatch κ δ) (mutationResults : List Timestamp) {commitVersion : Timestamp}

/-- What the last result of an acknowledged batch makes of a cached document, unless the
server has sent a later one by now. -/
def acknowledged (key : κ) (remoteDoc : Option (MaybeDocument κ δ)) : Option (MaybeDocument κ δ) :=
  match (batch.resultsFor mutationResults key).getLast? with
  | none => remoteDoc
  | some (mutation, version) =>
    if remoteDoc.all fun doc => doc.version < version then some (mutation.applyToRemoteDocument version) else remoteDoc

variable {batch mutationResults}

theorem resultsFor_about (complete : batch.mutations.length = mutationResults.length) (key : κ) :
    (batch.resultsFor mutationResults key).map Prod.fst = about key batch.mutations := by
  have names : (batch.mutations.zip mutationResults).map Prod.fst = batch.mutations := List.map_fst_zip complete.le
  rw [about, ← names, List.filter_map]
  rfl

theorem resultsFor_last (complete : batch.mutations.length = mutationResults.length) {key : κ}
    (written : key ∈ batch.mutations.map Mutation.key) :
    ∃ earlier mutation version, batch.resultsFor mutationResults key = earlier ++ [(mutation, version)] ∧ mutation.key = key := by
  obtain ⟨mutation, member, keyed⟩ := List.mem_map.mp written
  obtain nothing | ⟨earlier, ⟨last, version⟩, list⟩ := List.eq_nil_or_concat' (batch.resultsFor mutationResults key)
  · have listed : mutation ∈ about key batch.mutations := List.mem_filter.mpr ⟨member, by simpa using keyed⟩
    rw [← resultsFor_about complete, nothing] at listed
    cases listed
  · have own : (last, version) ∈ batch.resultsFor mutationResults key := by
      rw [list]
      exact List.mem_concat_self
    exact ⟨earlier, last, version, list, by simpa using (List.mem_filter.mp own).2⟩

theorem applyResultTo_spec (complete : batch.mutations.length = mutationResults.length) (committed : SnapshotVersion.none < commitVersion)
    {key : κ} (written : key ∈ batch.mutations.map Mutation.key) {cache : RemoteDocumentCache κ δ} (dated : Dated cache) :
    ∃ next, LocalStore.applyResultTo batch mutationResults commitVersion cache key = some next ∧ Dated next ∧ ∀ other,
      next.get other = if key = other then acknowledged batch mutationResults key (cache.get key) else cache.get other := by
  obtain ⟨earlier, mutation, version, list, keyed⟩ := resultsFor_last complete written
  have ackVersion : batch.docVersion mutationResults key = some version := by simp [MutationBatch.docVersion, list]
  have own : (mutation.applyToRemoteDocument version).key = key := by
    cases mutation with
    | set own value => exact keyed
    | delete own => exact keyed
  have applied : ∀ remoteDoc, batch.applyToRemoteDocument mutationResults key remoteDoc = some (mutation.applyToRemoteDocument version) := by
    intro remoteDoc
    simp [MutationBatch.applyToRemoteDocument, list]
  simp only [LocalStore.applyResultTo, ackVersion, Option.bind_some, applied, acknowledged, list, List.getLast?_concat]
  split
  next =>
    refine ⟨_, rfl, dated.add _ committed, ?_⟩
    intro other
    rw [RemoteDocumentCache.get_add, own]
  next =>
    refine ⟨_, rfl, dated, ?_⟩
    intro other
    split
    next same => rw [same]
    next => rfl

theorem applyResults_spec (complete : batch.mutations.length = mutationResults.length) (committed : SnapshotVersion.none < commitVersion)
    {keys : List κ} (distinct : keys.Nodup) (written : ∀ key ∈ keys, key ∈ batch.mutations.map Mutation.key)
    {cache : RemoteDocumentCache κ δ} (dated : Dated cache) :
    ∃ final, Transition.run (LocalStore.applyResultTo batch mutationResults commitVersion) cache keys = some final ∧ Dated final ∧ ∀ key,
      final.get key = if key ∈ keys then acknowledged batch mutationResults key (cache.get key) else cache.get key := by
  induction keys generalizing cache with
  | nil => exact ⟨cache, rfl, dated, fun _ => rfl⟩
  | cons first rest ih =>
    obtain ⟨fresh, distinct⟩ := List.nodup_cons.mp distinct
    obtain ⟨next, applied, later, found⟩ := applyResultTo_spec complete committed (written first List.mem_cons_self) dated
    obtain ⟨final, ran, dated, outcome⟩ := ih distinct (fun key later => written key (List.mem_cons_of_mem _ later)) later
    refine ⟨final, Transition.run_cons.mpr ⟨next, applied, ran⟩, dated, ?_⟩
    intro key
    rw [outcome key, found key]
    simp only [List.mem_cons]
    by_cases same : first = key
    · subst same
      simp only [fresh, if_false, or_false, if_true]
    · simp only [same, Ne.symm same, if_false, false_or]

end Acknowledgements

section RemoteEvents

variable {υ : Type} {store : LocalStore υ κ δ}

/-- What the remote store may send: a consistent snapshot that is not older than the last
one, or the news that documents in limbo are gone. -/
def Timely (store : LocalStore υ κ δ) (documentUpdates : MaybeDocumentMap κ δ) (snapshotVersion : Timestamp) : Prop :=
  snapshotVersion ≠ SnapshotVersion.none ∧ store.lastRemoteSnapshotVersion ≤ snapshotVersion ∨
    snapshotVersion = SnapshotVersion.none ∧
      ∀ doc ∈ documentUpdates.list, doc.document? = none ∧ doc.version = SnapshotVersion.none

theorem populate_spec {existing : RemoteDocumentCache κ δ} (dated : Dated existing) {readTime : Timestamp} {docs : List (MaybeDocument κ δ)}
    (timely : SnapshotVersion.none < readTime ∨ ∀ doc ∈ docs, doc.document? = none ∧ doc.version = SnapshotVersion.none) :
    ∃ cache changedDocs, Transition.run (LocalStore.populateDocument existing.docs readTime) (existing, Keyed.Sorted.empty) docs =
        some (cache, changedDocs) ∧ Dated cache ∧
      ∀ key, match changedDocs.find key with
        | some doc => showing (some doc) = showing (cache.get key)
        | none => cache.get key = existing.get key := by
  let holds (state : RemoteDocumentCache κ δ × MaybeDocumentMap κ δ) : Prop := Dated state.1 ∧ ∀ key, match state.2.find key with
    | some doc => showing (some doc) = showing (state.1.get key)
    | none => state.1.get key = existing.get key
  have start : holds (existing, Keyed.Sorted.empty) := ⟨dated, fun _ => rfl⟩
  suffices advances : ∀ state, holds state → ∃ cache changedDocs,
      Transition.run (LocalStore.populateDocument existing.docs readTime) state docs = some (cache, changedDocs) ∧ holds (cache, changedDocs) from
    advances _ start
  induction docs with
  | nil => exact fun state kept => ⟨state.1, state.2, rfl, kept⟩
  | cons doc docs ih =>
    intro state kept
    have later := ih (timely.imp_right fun all other member => all other (List.mem_cons_of_mem _ member))
    suffices taken : ∃ next, LocalStore.populateDocument existing.docs readTime state doc = some next ∧ holds next by
      obtain ⟨next, populated, kept⟩ := taken
      obtain ⟨cache, changedDocs, ran, outcome⟩ := later next kept
      exact ⟨cache, changedDocs, Transition.run_cons.mpr ⟨next, populated, ran⟩, outcome⟩
    obtain ⟨cache, changedDocs⟩ := state
    obtain ⟨dated, kept⟩ := kept
    simp only [LocalStore.populateDocument]
    split
    next gone =>
      refine ⟨_, rfl, dated.remove doc.key, ?_⟩
      intro key
      have missing : doc.document? = none := Option.isNone_iff_eq_none.mp (Bool.and_eq_true_iff.mp gone).1
      rw [Keyed.Sorted.find_insert, RemoteDocumentCache.get_remove]
      by_cases same : doc.key = key
      · simp only [same, if_true]
        exact missing
      · simp only [same, if_false]
        exact kept key
    next present =>
      split
      next =>
        have read : SnapshotVersion.none < readTime := by
          rcases timely with read | all
          · exact read
          · obtain ⟨missing, unversioned⟩ := all doc List.mem_cons_self
            simp [missing, unversioned] at present
        rw [if_neg (ne_of_gt read)]
        refine ⟨_, rfl, dated.add doc read, ?_⟩
        intro key
        rw [Keyed.Sorted.find_insert, RemoteDocumentCache.get_add]
        by_cases same : doc.key = key
        · simp only [same, if_true]
        · simp only [same, if_false]
          exact kept key
      next => exact ⟨_, rfl, dated, kept⟩

/-- Documents from the server are cached unless they are older than what is known. -/
theorem applyRemoteEvent_spec (intact : Intact store) {documentUpdates : MaybeDocumentMap κ δ} {snapshotVersion : Timestamp}
    (timely : Timely store documentUpdates snapshotVersion) :
    ∃ cache version changes, store.applyRemoteEvent documentUpdates snapshotVersion =
        some ({ store with remoteDocumentCache := cache, lastRemoteSnapshotVersion := version }, changes) ∧
      Intact { store with remoteDocumentCache := cache, lastRemoteSnapshotVersion := version } ∧
      Reports store { store with remoteDocumentCache := cache, lastRemoteSnapshotVersion := version } changes ∧
      store.lastRemoteSnapshotVersion ≤ version := by
  obtain ⟨cache, changedDocs, ran, dated, found⟩ := @populate_spec κ δ _ store.remoteDocumentCache intact.dated snapshotVersion
    documentUpdates.list (timely.imp (fun consistent => lt_of_le_of_ne (intact.advanced.trans consistent.2) (Ne.symm consistent.1)) And.right)
  let version := if snapshotVersion = SnapshotVersion.none then store.lastRemoteSnapshotVersion else snapshotVersion
  have later : store.lastRemoteSnapshotVersion ≤ version := by
    simp only [version]
    split
    next => exact le_refl _
    next dated => exact (timely.resolve_right fun limbo => dated limbo.1).2
  have forward : ¬(snapshotVersion ≠ SnapshotVersion.none ∧ snapshotVersion < store.lastRemoteSnapshotVersion) := by
    rintro ⟨dated, earlier⟩
    exact absurd (timely.resolve_right fun limbo => dated limbo.1).2 (not_le.mpr earlier)
  let next : LocalStore υ κ δ := { store with remoteDocumentCache := cache, lastRemoteSnapshotVersion := version }
  have bases : changedDocs.list.map (fun doc => (doc.key, some doc)) =
      (changedDocs.list.map MaybeDocument.key).map fun key => (key, changedDocs.find key) := by
    rw [List.map_map]
    apply List.map_congr_left
    intro doc member
    exact congrArg (Prod.mk doc.key) (Keyed.Items.find_eq_some.mpr ⟨member, rfl⟩).symm
  have touched : ∀ key ∈ changedDocs.list.map MaybeDocument.key, showing (changedDocs.find key) = showing (next.remoteDocumentCache.get key) := by
    intro key member
    obtain ⟨doc, listed, keyed⟩ := List.mem_map.mp member
    have held : changedDocs.find key = some doc := Keyed.Items.find_eq_some.mpr ⟨listed, keyed⟩
    have outcome := found key
    rw [held] at outcome ⊢
    exact outcome
  have others : ∀ key ∉ changedDocs.list.map MaybeDocument.key, showing (localDocument next key) = showing (localDocument store key) := by
    intro key other
    have outcome := found key
    cases held : changedDocs.find key with
    | some doc => exact absurd (List.mem_map.mpr ⟨doc, Keyed.Items.find_eq_some.mp held⟩) other
    | none =>
      rw [held] at outcome
      exact congrArg (fun base => showing (overlay (about key (pending store)) base)) outcome
  have kept : Intact next := ⟨intact.indexed, dated, intact.advanced.trans later⟩
  obtain ⟨changes, looked, reports⟩ := getLocalView_reports kept (fun _ _ held => (Keyed.Items.find_eq_some.mp held).2) touched others
  refine ⟨cache, version, changes, ?_, kept, reports, later⟩
  unfold LocalStore.applyRemoteEvent
  rw [ran, Option.bind_some]
  simp only [forward, if_false, bases]
  exact Option.map_eq_some_iff.mpr ⟨changes, looked, rfl⟩

end RemoteEvents

section Operations

variable {υ : Type} [DecidableEq υ] {store : LocalStore υ κ δ}

theorem withQueue_mutationQueue (store : LocalStore υ κ δ) (queue : MutationQueue κ δ) : (store.withQueue queue).mutationQueue = queue :=
  Function.update_self _ _ _

theorem Intact.withQueue (intact : Intact store) {queue : MutationQueue κ δ} (indexed : Indexed queue) : Intact (store.withQueue queue) := by
  refine ⟨?_, intact.dated, intact.advanced⟩
  intro user
  simp only [LocalStore.withQueue, Function.update_apply]
  split
  · exact indexed
  · exact intact.indexed user

theorem writeLocally_spec (intact : Intact store) {mutations : List (Mutation κ δ)} (nonempty : mutations ≠ []) :
    ∃ batch queue changes, store.writeLocally mutations = some (store.withQueue queue, changes) ∧ Intact (store.withQueue queue) ∧
      Reports store (store.withQueue queue) changes ∧ queue.queue = store.mutationQueue.queue ++ [batch] ∧ batch.mutations = mutations := by
  obtain ⟨existingDocuments, looked, existing⟩ := getLocalView_spec intact (cached_key store.remoteDocumentCache) (mutations.map Mutation.key).dedup
  obtain ⟨batch, queue, added, indexed, list, written⟩ := intact.current.add nonempty
  refine ⟨batch, queue, batch.applyToLocalDocumentSet existingDocuments, ?_, intact.withQueue indexed, ?_, list, written⟩
  · unfold LocalStore.writeLocally LocalStore.getDocuments
    rw [looked, Option.bind_some, added]
    rfl
  · have next : pending (store.withQueue queue) = pending store ++ mutations := by
      rw [pending, withQueue_mutationQueue, list, List.flatMap_append, ← written]
      simp [pending]
    have laid : ∀ key, localDocument (store.withQueue queue) key = overlay (about key mutations) (localDocument store key) := by
      intro key
      rw [localDocument, next, about_append, overlay_append]
      rfl
    intro key
    rw [find_applyToLocalDocumentSet, existing key, written, laid key]
    simp only [List.mem_dedup]
    by_cases touched : key ∈ mutations.map Mutation.key
    · obtain ⟨maybeDoc, laid, _⟩ := overlay_about_some touched (some ((localDocument store key).getD (.noDocument key SnapshotVersion.none false)))
      have same : showing (some ((localDocument store key).getD (.noDocument key SnapshotVersion.none false))) = showing (localDocument store key) := by
        cases localDocument store key with
        | none => rfl
        | some known => rfl
      have shown := overlay_showing same (about key mutations)
      rw [if_pos touched, if_pos touched]
      change match overlay (about key mutations) (some ((localDocument store key).getD (.noDocument key SnapshotVersion.none false))) with
        | some maybeDoc => _
        | none => _
      rw [laid] at shown ⊢
      exact shown
    · rw [if_neg touched, if_neg touched, about_nil touched]
      rfl

theorem pending_front {batch : MutationBatch κ δ} {rest : List (MutationBatch κ δ)} (front : store.mutationQueue.queue = batch :: rest)
    {queue : MutationQueue κ δ} (list : queue.queue = rest) {key : κ} (others : key ∉ batch.mutations.map Mutation.key) :
    about key (pending (store.withQueue queue)) = about key (pending store) := by
  simp only [pending, withQueue_mutationQueue, list, front, List.flatMap_cons, about_append, about_nil others, List.nil_append]

/-- The server has taken the batch at the front: its results are cached in its place. -/
theorem acknowledgeBatch_spec (intact : Intact store) {batch : MutationBatch κ δ} {rest : List (MutationBatch κ δ)}
    {mutationResults : List Timestamp} {commitVersion : Timestamp} (front : store.mutationQueue.queue = batch :: rest)
    (complete : batch.mutations.length = mutationResults.length) (committed : SnapshotVersion.none < commitVersion) :
    ∃ cache queue changes,
      store.acknowledgeBatch batch.batchId mutationResults commitVersion = some ({ store with remoteDocumentCache := cache }.withQueue queue, changes) ∧
        Intact ({ store with remoteDocumentCache := cache }.withQueue queue) ∧
        Reports store ({ store with remoteDocumentCache := cache }.withQueue queue) changes ∧ queue.queue = rest ∧
        ∀ key, cache.get key = if key ∈ batch.keys then acknowledged batch mutationResults key (store.remoteDocumentCache.get key)
          else store.remoteDocumentCache.get key := by
  obtain ⟨cache, ran, dated, found⟩ := applyResults_spec complete committed (List.nodup_dedup (batch.mutations.map Mutation.key))
    (fun key member => List.mem_dedup.mp member) intact.dated
  obtain ⟨queue, removed, indexed, list⟩ := intact.current.remove front
  let next := { store with remoteDocumentCache := cache }.withQueue queue
  have stored : Intact { store with remoteDocumentCache := cache } := ⟨intact.indexed, dated, intact.advanced⟩
  have kept : Intact next := stored.withQueue indexed
  have others : ∀ key ∉ batch.keys, showing (localDocument next key) = showing (localDocument store key) := by
    intro key other
    have untouched : key ∉ batch.mutations.map Mutation.key := fun member => other (List.mem_dedup.mpr member)
    have same : cache.get key = store.remoteDocumentCache.get key := (found key).trans (if_neg other)
    change showing (overlay (about key (pending next)) (cache.get key)) = _
    rw [same]
    exact congrArg (fun mutations => showing (overlay mutations _)) (pending_front front list untouched)
  obtain ⟨changes, looked, reports⟩ := getDocuments_reports kept others
  refine ⟨cache, queue, changes, ?_, kept, reports, list, found⟩
  unfold LocalStore.acknowledgeBatch
  simp only [front, complete, true_and, if_true]
  rw [MutationBatch.keys, ran, Option.bind_some, removed, Option.bind_some]
  exact Option.map_eq_some_iff.mpr ⟨changes, looked, rfl⟩

/-- The server has refused the batch at the front: what it did is undone. -/
theorem rejectBatch_spec (intact : Intact store) {batch : MutationBatch κ δ} {rest : List (MutationBatch κ δ)}
    (front : store.mutationQueue.queue = batch :: rest) :
    ∃ queue changes, store.rejectBatch batch.batchId = some (store.withQueue queue, changes) ∧ Intact (store.withQueue queue) ∧
      Reports store (store.withQueue queue) changes ∧ queue.queue = rest := by
  obtain ⟨queue, removed, indexed, list⟩ := intact.current.remove front
  have kept := intact.withQueue indexed
  have others : ∀ key ∉ batch.keys, showing (localDocument (store.withQueue queue) key) = showing (localDocument store key) := by
    intro key other
    have untouched : key ∉ batch.mutations.map Mutation.key := fun member => other (List.mem_dedup.mpr member)
    exact congrArg (fun mutations => showing (overlay mutations _)) (pending_front front list untouched)
  obtain ⟨changes, looked, reports⟩ := getDocuments_reports kept others
  refine ⟨queue, changes, ?_, kept, reports, list⟩
  have held : (store.mutationQueue.queue.find? fun other => other.batchId = batch.batchId) = some batch := by
    rw [front]
    exact List.find?_cons_of_pos (by simp)
  unfold LocalStore.rejectBatch
  rw [intact.current.lookup, held, Option.bind_some, Option.bind_some, removed, Option.bind_some]
  exact Option.map_eq_some_iff.mpr ⟨changes, looked, rfl⟩

/-- The documents of a user are under the mutations of that user alone. -/
theorem handleUserChange_spec (intact : Intact store) (user : υ) :
    ∃ next changes, store.handleUserChange user = some (next, changes) ∧ Intact next ∧ Reports store next changes ∧
      next.user = user ∧ next.remoteDocumentCache = store.remoteDocumentCache ∧
      next.mutationQueue.queue = (store.queues user).queue ∧ next.lastRemoteSnapshotVersion = store.lastRemoteSnapshotVersion := by
  obtain ⟨indexed, list⟩ := (intact.indexed user).start
  let next := { store with user := user }.withQueue (store.queues user).start
  have stored : Intact { store with user := user } := ⟨intact.indexed, intact.dated, intact.advanced⟩
  have kept : Intact next := stored.withQueue indexed
  have current : next.mutationQueue.queue = (store.queues user).queue := by
    rw [← list]
    exact congrArg MutationQueue.queue (withQueue_mutationQueue _ _)
  let keys := ((store.mutationQueue.queue ++ (store.queues user).start.queue).flatMap fun batch => batch.mutations.map Mutation.key).dedup
  have untouched : ∀ key ∉ keys, ∀ queue, queue = store.mutationQueue.queue ∨ queue = (store.queues user).start.queue →
      about key (queue.flatMap MutationBatch.mutations) = [] := by
    intro key other queue among
    apply about_nil
    intro member
    apply other
    obtain ⟨mutation, listed, keyed⟩ := List.mem_map.mp member
    obtain ⟨batch, held, written⟩ := List.mem_flatMap.mp listed
    rw [List.mem_dedup, List.mem_flatMap]
    refine ⟨batch, ?_, keyed ▸ List.mem_map_of_mem written⟩
    rcases among with rfl | rfl
    · exact List.mem_append_left _ held
    · exact List.mem_append_right _ held
  have others : ∀ key ∉ keys, showing (localDocument next key) = showing (localDocument store key) := by
    intro key other
    have before := untouched key other store.mutationQueue.queue (.inl rfl)
    have after := untouched key other next.mutationQueue.queue (.inr (current.trans list.symm))
    rw [localDocument, pending, after, localDocument, pending, before]
    rfl
  obtain ⟨changes, looked, reports⟩ := getDocuments_reports kept others
  exact ⟨next, changes, Option.map_eq_some_iff.mpr ⟨changes, looked, rfl⟩, kept, reports, rfl, rfl, current, rfl⟩

end Operations

end FireChat.Core.Proofs
