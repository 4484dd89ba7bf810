import FireChat.Proofs.Coherence

/-! Latency compensation. A document shows at once as the user sets it, and does not
flicker when the server answers: it shows the same until the server sends it back. -/

namespace FireChat.Core.Proofs

variable {κ δ ν υ ℓ : Type} [LinearOrder κ]

section Store

variable {store : LocalStore υ κ δ} {key : κ} {value : δ}

def Caches (cache : RemoteDocumentCache κ δ) (key : κ) (value : δ) : Prop :=
  ∃ known, cache.get key = some (.document known) ∧ known.data = value

/-- The store has the document as it was set: as a pending write, or cached. -/
def Shows (store : LocalStore υ κ δ) (key : κ) (value : δ) : Prop :=
  (∃ earlier, about key (pending store) = earlier ++ [.set key value]) ∨
    about key (pending store) = [] ∧ Caches store.remoteDocumentCache key value

theorem Shows.document (shows : Shows store key value) :
    ∃ document, showing (localDocument store key) = some document ∧ document.content = (key, value) := by
  rcases shows with ⟨earlier, written⟩ | ⟨nothing, known, cached, same⟩
  · rw [localDocument, written, overlay_concat]
    exact ⟨_, rfl, rfl⟩
  · rw [localDocument, nothing]
    have own : known.key = key := cached_key store.remoteDocumentCache key _ cached
    exact ⟨known, congrArg showing cached, Prod.ext own same⟩

theorem Shows.matching {query : Query κ δ ν} (shows : Shows store key value)
    (fits : query.matches ⟨key, value, SnapshotVersion.none, .localMutations⟩) :
    (matching query store key).map Document.content = some (key, value) := by
  obtain ⟨document, shown, content⟩ := shows.document
  have inside : query.matches document := (query.matches_congr content).trans fits
  rw [Proofs.matching, shown, Option.filter_some, if_pos inside, Option.map_some, content]

theorem Shows.congr {next : LocalStore υ κ δ} (shows : Shows store key value) (writes : about key (pending next) = about key (pending store))
    (cached : next.remoteDocumentCache.get key = store.remoteDocumentCache.get key) : Shows next key value := by
  unfold Shows Caches
  rw [writes, cached]
  exact shows

theorem Shows.written [DecidableEq υ] {queue : MutationQueue κ δ} {batch : MutationBatch κ δ} (shows : Shows store key value)
    (list : queue.queue = store.mutationQueue.queue ++ [batch]) (others : key ∉ batch.mutations.map Mutation.key) :
    Shows (store.withQueue queue) key value := by
  refine shows.congr ?_ rfl
  rw [pending, withQueue_mutationQueue, list, List.flatMap_append, about_append]
  simp [about_nil others, pending]

/-- The answer to the last write of a document puts the document it set into the cache. -/
theorem Shows.acknowledged [DecidableEq υ] {queue : MutationQueue κ δ} {batch : MutationBatch κ δ} {rest : List (MutationBatch κ δ)}
    {mutationResults : List Timestamp} {cache : RemoteDocumentCache κ δ} (shows : Shows store key value)
    (front : store.mutationQueue.queue = batch :: rest) (complete : batch.mutations.length = mutationResults.length)
    (list : queue.queue = rest)
    (found : cache.get key = if key ∈ batch.keys then acknowledged batch mutationResults key (store.remoteDocumentCache.get key)
      else store.remoteDocumentCache.get key)
    (later : ∀ mutation version, (batch.resultsFor mutationResults key).getLast? = some (mutation, version) →
      ((store.remoteDocumentCache.get key).all fun doc => doc.version < version) ∨ Caches store.remoteDocumentCache key value) :
    Shows ({ store with remoteDocumentCache := cache }.withQueue queue) key value := by
  have split : about key (pending store) = about key batch.mutations ++ about key (pending ({ store with remoteDocumentCache := cache }.withQueue queue)) := by
    rw [pending, front, List.flatMap_cons, about_append, pending, withQueue_mutationQueue, list]
  rcases shows with ⟨earlier, written⟩ | ⟨nothing, cached⟩
  · obtain none | ⟨before, last, writes⟩ :=
      List.eq_nil_or_concat' (about key (pending ({ store with remoteDocumentCache := cache }.withQueue queue)))
    · -- The answered batch has the last write, so its result is what it set.
      rw [none, List.append_nil, written] at split
      have touched : key ∈ batch.mutations.map Mutation.key := by
        by_contra others
        rw [about_nil others] at split
        exact List.concat_ne_nil _ _ split
      obtain ⟨before, mutation, version, results, _⟩ := resultsFor_last complete touched
      have writes := resultsFor_about complete key
      rw [results, List.map_append, ← split] at writes
      have last : mutation = .set key value := List.cons.inj (List.append_inj' writes rfl).2 |>.1
      have named : key ∈ batch.keys := List.mem_dedup.mpr touched
      rw [if_pos named, Proofs.acknowledged, results, List.getLast?_concat] at found
      simp only [last] at found
      refine .inr ⟨none, ?_⟩
      split at found
      next => exact ⟨_, found, rfl⟩
      next earlier =>
        obtain ⟨known, held, same⟩ := (later mutation version (by rw [results, List.getLast?_concat])).resolve_left earlier
        exact ⟨known, found.trans held, same⟩
    · rw [writes, ← List.append_assoc] at split
      have last := (List.append_inj' (written.symm.trans split) rfl).2
      exact .inl ⟨before, by rw [writes, ← last]⟩
  · rw [nothing] at split
    obtain ⟨front, rest⟩ := List.append_eq_nil_iff.mp split.symm
    have untouched : key ∉ batch.keys := by
      intro member
      obtain ⟨mutation, written, keyed⟩ := List.mem_map.mp (List.mem_dedup.mp member)
      have listed : mutation ∈ about key batch.mutations := List.mem_filter.mpr ⟨written, by simpa using keyed⟩
      rw [front] at listed
      cases listed
    rw [if_neg untouched] at found
    obtain ⟨known, held, same⟩ := cached
    exact .inr ⟨rest, known, found.trans held, same⟩

theorem Shows.rejected [DecidableEq υ] {queue : MutationQueue κ δ} {batch : MutationBatch κ δ} {rest : List (MutationBatch κ δ)}
    (shows : Shows store key value) (front : store.mutationQueue.queue = batch :: rest) (list : queue.queue = rest)
    (others : key ∉ batch.mutations.map Mutation.key) : Shows (store.withQueue queue) key value :=
  shows.congr (pending_front front list others) rfl

def Outdated (docs : MaybeDocumentMap κ δ) (doc : MaybeDocument κ δ) : Prop :=
  doc.version ≠ SnapshotVersion.none ∧ ∃ cached, docs.find doc.key = some cached ∧ doc.version < cached.version

/-- What a document from the server does to the cache. -/
theorem populateDocument_cases {existingDocs : MaybeDocumentMap κ δ} {readTime : Timestamp}
    {state next : RemoteDocumentCache κ δ × MaybeDocumentMap κ δ} {doc : MaybeDocument κ δ}
    (populated : LocalStore.populateDocument existingDocs readTime state doc = some next) :
    (doc.document? = none ∧ doc.version = SnapshotVersion.none) ∧ next = (state.1.remove doc.key, state.2.insert doc) ∨
      ¬Outdated existingDocs doc ∧ next = (state.1.add doc readTime, state.2.insert doc) ∨ next = state := by
  simp only [LocalStore.populateDocument] at populated
  split at populated
  next gone =>
    cases populated
    exact .inl ⟨by simpa using gone, rfl⟩
  next =>
    split at populated
    next newer =>
      split at populated
      next => cases populated
      next =>
        cases populated
        refine .inr (.inl ⟨?_, rfl⟩)
        rintro ⟨_, cached, found, older⟩
        rw [found, Option.all_some, Bool.or_eq_true, Bool.and_eq_true, decide_eq_true_eq, decide_eq_true_eq] at newer
        rcases newer with newer | ⟨same, _⟩
        · exact absurd newer (not_lt_of_gt older)
        · exact absurd same (ne_of_lt older)
    next =>
      cases populated
      exact .inr (.inr rfl)

/-- A snapshot from the server leaves the document if it sends it back as it was set, or an older one. -/
theorem populate_keeps {existingDocs changedDocs : MaybeDocumentMap κ δ} {existing cache : RemoteDocumentCache κ δ} {readTime : Timestamp}
    {docs : List (MaybeDocument κ δ)}
    (sent : ∀ doc ∈ docs, doc.key = key → (∃ known, doc = .document known ∧ known.data = value) ∨ Outdated existingDocs doc)
    (held : Caches existing key value)
    (ran : Transition.run (LocalStore.populateDocument existingDocs readTime) (existing, Keyed.Sorted.empty) docs =
      some (cache, changedDocs)) : Caches cache key value := by
  let allowed (doc : MaybeDocument κ δ) : Prop := doc.key = key → (∃ known, doc = .document known ∧ known.data = value) ∨ Outdated existingDocs doc
  have keeps : ∀ (state : RemoteDocumentCache κ δ × MaybeDocumentMap κ δ) doc next, Caches state.1 key value → allowed doc →
      LocalStore.populateDocument existingDocs readTime state doc = some next → Caches next.1 key value := by
    rintro ⟨cache, changedDocs⟩ doc next ⟨known, found, same⟩ allowed populated
    rcases populateDocument_cases populated with ⟨⟨missing, unversioned⟩, rfl⟩ | ⟨current, rfl⟩ | rfl
    · by_cases own : doc.key = key
      · rcases allowed own with ⟨_, rfl, _⟩ | outdated
        · cases missing
        · exact absurd unversioned outdated.1
      · exact ⟨known, by rw [RemoteDocumentCache.get_remove, if_neg own, found], same⟩
    · by_cases own : doc.key = key
      · rcases allowed own with ⟨set, rfl, equal⟩ | outdated
        · exact ⟨set, by rw [RemoteDocumentCache.get_add, if_pos own], equal⟩
        · exact absurd outdated current
      · exact ⟨known, by rw [RemoteDocumentCache.get_add, if_neg own, found], same⟩
    · exact ⟨known, found, same⟩
  have initial : Caches (existing, (Keyed.Sorted.empty : MaybeDocumentMap κ δ)).1 key value := held
  exact Transition.run_invariant keeps initial (fun doc member own => sent doc member own) ran

end Store

variable [Ord ν] [Std.TransOrd ν] [DecidableEq δ] {query : Query κ δ ν} {key : κ} {value : δ}

section Views

variable {view after : View query} {known next : κ → Option (Document κ δ)} {changes refill : MaybeDocumentMap κ δ}
  {targetChange : Option (TargetChange κ)} {viewChange : ViewChange query}

def Displays (documents : DocumentSet query) (key : κ) (value : δ) : Prop :=
  (documents.find key).map Document.content = some (key, value)

omit [Std.TransOrd ν] in
theorem settled_content {documents : DocumentSet query} {maybe : MaybeDocument κ δ} {content : κ × δ}
    (before : (documents.find maybe.key).map Document.content = some content)
    (offered : (newDoc? query maybe).map Document.content = some content) :
    (settled view documents maybe).map Document.content = some content := by
  unfold settled
  split
  next => exact before
  next => exact offered

theorem emit_displays (unlimited : query.limitType = .none) (tracked : Tracked view.documentSet view.mutatedKeys)
    (leads : Leads query changes known next) (found : (next key).map Document.content = some (key, value))
    (displays : Displays view.documentSet key value) (emitted : view.emit changes refill targetChange = some (after, viewChange)) :
    Displays after.documentSet key value := by
  obtain ⟨first, final, computed, applied, same | ⟨needs, _⟩⟩ := emit_computed tracked emitted
  · subst same
    rw [(applyChanges_emitted computed.difference computed.tracked applied).2]
    obtain ⟨looped, list, entries⟩ := computed.limited
    rw [limited, if_pos unlimited] at list
    have whole : final.documentSet.find key = looped.find key := congrArg (List.find? _) list
    rw [Displays, whole, entries key]
    have batch := leads key
    cases listed : changes.find key with
    | none => exact displays
    | some maybe =>
      obtain ⟨_, keyed⟩ := Keyed.Items.find_eq_some.mp listed
      rw [listed] at batch
      rw [← batch] at found
      exact settled_content (by rw [keyed]; exact displays) found
  · rw [computed.refill] at needs
    obtain ⟨maybe, _, asks⟩ := List.any_eq_true.mp needs
    simp [asksRefill_unlimited unlimited] at asks

theorem initializeView_displays (unlimited : query.limitType = .none) {documents : MaybeDocumentMap κ δ} {remoteKeys : Finset κ}
    {snapshot : ViewSnapshot query} (lists : Lists query documents known) (found : (known key).map Document.content = some (key, value))
    (opened : initializeView query documents remoteKeys targetChange = some (after, snapshot)) :
    Displays after.documentSet key value := by
  obtain ⟨looped, list, entries⟩ := initializeView_limited opened
  rw [limited, if_pos unlimited] at list
  have whole : after.documentSet.find key = looped.find key := congrArg (List.find? _) list
  have same := congrArg (Option.map Prod.fst) (lists.faces entries key)
  simp only [Option.map_map] at same
  exact (congrArg (Option.map Document.content) whole).trans (same.trans found)

end Views

variable {engine next : SyncEngine υ ℓ query}

/-- What the user and the server may do to a document that was set. The user leaves it
alone. The server takes the write after all that it has sent of the document, unless that
is the document as it was set, and once it has answered it sends nothing newer than that. -/
def Respects (key : κ) (value : δ) (engine : SyncEngine υ ℓ query) : SyncEvent υ ℓ κ δ → Prop
  | .writeMutations mutations => key ∉ mutations.map Mutation.key
  | .handleSuccessfulWrite _ mutationResults _ => ∀ batch rest, engine.localStore.mutationQueue.queue = batch :: rest →
      ∀ mutation version, (batch.resultsFor mutationResults key).getLast? = some (mutation, version) →
        ((engine.localStore.remoteDocumentCache.get key).all fun doc => doc.version < version) ∨
          Caches engine.localStore.remoteDocumentCache key value
  | .handleRejectedWrite _ => ∀ batch rest, engine.localStore.mutationQueue.queue = batch :: rest →
      key ∉ batch.mutations.map Mutation.key
  | .applyRemoteEvent documentUpdates _ _ => about key (pending engine.localStore) = [] →
      ∀ doc, documentUpdates.find key = some doc →
        (∃ known, doc = .document known ∧ known.data = value) ∨ Outdated engine.localStore.remoteDocumentCache.docs doc
  | .handleCredentialChange user => user = engine.localStore.user
  | .addQueryListener _ _ _ _ | .removeQueryListener _ | .handleRejectedListen | .handleOnlineStateChange _ => True

variable [DecidableEq ℓ] [DecidableEq υ]

theorem Shows.step {event : SyncEvent υ ℓ κ δ} (shows : Shows engine.localStore key value) (intact : Intact engine.localStore)
    (admissible : Admissible engine event) (respects : Respects key value engine event) (stepped : engine.step event = some next) :
    Shows next.localStore key value := by
  cases event with
  | addQueryListener id options previous synthesizedCurrentChange =>
    obtain ⟨documents, _, added⟩ := Option.bind_eq_some_iff.mp stepped
    obtain ⟨client, _, rfl⟩ := Option.map_eq_some_iff.mp added
    exact shows
  | removeQueryListener id =>
    obtain ⟨client, _, rfl⟩ := Option.map_eq_some_iff.mp stepped
    exact shows
  | writeMutations mutations =>
    obtain ⟨batch, queue, changes, written, _, _, list, same⟩ := writeLocally_spec intact admissible
    obtain ⟨outcome, again, emitted⟩ := Option.bind_eq_some_iff.mp stepped
    cases written.symm.trans again
    rw [emit_localStore emitted]
    exact shows.written list (same ▸ respects)
  | handleSuccessfulWrite batchId mutationResults commitVersion =>
    obtain ⟨committed, batch, rest, front, rfl, complete⟩ := admissible
    obtain ⟨cache, queue, changes, answered, _, _, list, found⟩ := acknowledgeBatch_spec intact front complete committed
    obtain ⟨outcome, again, emitted⟩ := Option.bind_eq_some_iff.mp stepped
    cases answered.symm.trans again
    rw [emit_localStore emitted]
    exact shows.acknowledged front complete list (found key) (respects batch rest front)
  | handleRejectedWrite batchId =>
    obtain ⟨batch, rest, front, rfl⟩ := admissible
    obtain ⟨queue, changes, refused, _, _, list⟩ := rejectBatch_spec intact front
    obtain ⟨outcome, again, emitted⟩ := Option.bind_eq_some_iff.mp stepped
    cases refused.symm.trans again
    rw [emit_localStore emitted]
    exact shows.rejected front list (respects batch rest front)
  | applyRemoteEvent documentUpdates snapshotVersion targetChange =>
    obtain ⟨⟨store, changes⟩, applied, emitted⟩ := Option.bind_eq_some_iff.mp stepped
    rw [emit_localStore emitted]
    obtain ⟨⟨cache, changedDocs⟩, ran, outcome⟩ := Option.bind_eq_some_iff.mp applied
    simp only at outcome
    split at outcome
    next => cases outcome
    next =>
      obtain ⟨reported, _, same⟩ := Option.map_eq_some_iff.mp outcome
      obtain ⟨rfl, _⟩ := Prod.mk.inj same
      rcases shows with pending | ⟨nothing, held⟩
      · exact .inl pending
      · refine .inr ⟨nothing, populate_keeps ?_ held ran⟩
        intro doc member own
        exact respects nothing doc (Keyed.Items.find_eq_some.mpr ⟨member, own⟩)
  | handleRejectedListen => cases stepped; exact shows
  | handleCredentialChange user =>
    have current : user = engine.localStore.user := respects
    simp only [SyncEngine.step, SyncEngine.handleCredentialChange, current, ne_eq, not_true_eq_false, if_false] at stepped
    cases stepped
    exact shows
  | handleOnlineStateChange onlineState =>
    obtain ⟨client, _, rfl⟩ := Option.map_eq_some_iff.mp stepped
    exact shows

structure Compensated (key : κ) (value : δ) (engine : SyncEngine υ ℓ query) : Prop where
  consistent : Consistent engine
  shows : Shows engine.localStore key value
  displays : ∀ view, engine.client.view = some view → Displays view.documentSet key value

theorem compensated_step {event : SyncEvent υ ℓ κ δ} (unlimited : query.limitType = .none)
    (fits : query.matches ⟨key, value, SnapshotVersion.none, .localMutations⟩) (compensated : Compensated key value engine)
    (legal : Admissible engine event ∧ Respects key value engine event) :
    ∃ next, engine.step event = some next ∧ Compensated key value next := by
  obtain ⟨next, stepped, intact, sound, moves⟩ := admissible_moves compensated.consistent legal.1
  have shows := compensated.shows.step compensated.consistent.intact legal.1 legal.2 stepped
  have found := shows.matching fits
  refine ⟨next, stepped, ⟨intact, sound, fun view held => moves.backed compensated.consistent held⟩, shows, ?_⟩
  intro after held
  cases moves with
  | kept store documents =>
    obtain ⟨before, viewed, same⟩ := documents after held
    rw [same]
    exact compensated.displays before viewed
  | opened store serves initialized =>
    obtain ⟨remoteKeys, synthesizedCurrentChange, snapshot, opened⟩ := initialized after held
    exact initializeView_displays unlimited (serves.lists unlimited) found opened
  | emitted leads lists emits =>
    obtain ⟨before, targetChange, viewChange, viewed, emitted⟩ := emits after held
    exact emit_displays unlimited (sound_tracked compensated.consistent.sound viewed) leads found (compensated.displays before viewed) emitted

/-- The server takes the write, but before it sends it back it sends an old value once more. -/
def answer : List (SyncEvent Nat Nat Nat Nat) :=
  [.handleSuccessfulWrite 1 [⟨10, 0⟩] ⟨10, 0⟩,
    .applyRemoteEvent (Keyed.Sorted.empty.insert (.document ⟨2, 9, ⟨8, 0⟩, .synced⟩)) ⟨11, 0⟩ none,
    .applyRemoteEvent (Keyed.Sorted.empty.insert (.document ⟨2, 7, ⟨10, 0⟩, .synced⟩)) ⟨12, 0⟩ none]

def answered (count : Nat) : SyncEngine Nat Nat ordered := ((stage 6).run (answer.take count)).getD (stage 6)

theorem answer_respected :
    Transition.Stepwise SyncEngine.step (fun engine event => Admissible engine event ∧ Respects 2 7 engine event) (stage 6) answer := by
  have silent : ∀ view : View ordered, TargetKnown view none := fun _ _ none => nomatch none
  refine (Transition.stepwise_cons (rfl : _ = some (answered 1))).mpr ⟨⟨⟨by decide, _, _, rfl, rfl, rfl⟩, ?_⟩, ?_⟩
  · intro batch rest front mutation version last
    cases front
    cases last
    exact .inl (by decide)
  refine (Transition.stepwise_cons (rfl : _ = some (answered 2))).mpr ⟨⟨⟨.inl ⟨by decide, by decide⟩, fun view _ => silent view⟩, ?_⟩, ?_⟩
  · intro _ doc sent
    cases sent
    exact .inr ⟨by decide, _, rfl, by decide⟩
  refine (Transition.stepwise_cons (rfl : _ = some (answered 3))).mpr ⟨⟨⟨.inl ⟨by decide, by decide⟩, fun view _ => silent view⟩, ?_⟩, trivial⟩
  intro _ doc sent
  cases sent
  exact .inl ⟨_, rfl, rfl⟩

end FireChat.Core.Proofs
