import FireChat.Proofs.Syncing

/-! What listeners have been shown, told by the local store alone: the query's own result,
with every write on top that the server has yet to answer. -/

namespace FireChat.Core.Proofs

variable {κ δ ν υ ℓ : Type}

section Limits

variable {query : Query κ δ ν}

theorem limited_map {α : Type} (read : Document κ δ → α) {first second : List (Document κ δ)} (same : first.map read = second.map read) :
    (limited query first).map read = (limited query second).map read := by
  have length : first.length = second.length := by
    have lengths := congrArg List.length same
    rwa [List.length_map, List.length_map] at lengths
  unfold limited remaining
  split
  · exact same
  · split
    · rw [List.map_take, List.map_take, same, length]
    · rw [List.map_drop, List.map_drop, same, length]

/-- Where no write waits for the server to send it back, what is shown is what is known. -/
theorem Agrees.content {shown known : Option (Document κ δ)} (agrees : Agrees shown known)
    (confirmed : ∀ document, known = some document → document.hasCommittedMutations = false) :
    shown.map Document.content = known.map Document.content := by
  cases shown with
  | none =>
    cases known with
    | none => rfl
    | some document => cases agrees
  | some document =>
    obtain ⟨other, rfl, ⟨content, _⟩ | ⟨_, _, committed⟩⟩ := agrees.some_left
    · exact congrArg some content
    · rw [confirmed other rfl] at committed
      cases committed

theorem applied_content (mutation : Mutation κ δ) (base : Option (MaybeDocument κ δ)) :
    ((mutation.applyToLocalView base).document?.filter query.matches).map Document.content =
        ((mutation.applyToLocalView none).document?.filter query.matches).map Document.content ∧
      ∀ document, (mutation.applyToLocalView base).document?.filter query.matches = some document → document.hasCommittedMutations = false := by
  refine ⟨?_, ?_⟩
  · have same := congrArg (Option.map Prod.fst) (seenBy_applied query mutation base none)
    simp only [seenBy, Option.map_map] at same
    exact same
  · intro document held
    cases mutation with
    | delete key => cases held
    | set key value =>
      obtain ⟨shown, _⟩ := Option.filter_eq_some_iff.mp held
      cases shown
      rfl

end Limits

variable [LinearOrder κ] [Ord ν] {query : Query κ δ ν}

/-- A listener that is not held back until its query is in sync. -/
def Ready (registered : Registered ℓ query) : Prop :=
  registered.listener.raisedInitialEvent ∨ registered.listener.options.waitForSyncWhenOnline = false

theorem Consistent.listening [Std.TransOrd ν] {engine : SyncEngine υ ℓ query} (consistent : Consistent engine) {info : QueryListenersInfo ℓ query}
    (listening : engine.client.info = some info) :
    ∃ view, engine.client.view = some view ∧ Backed view.documentSet (matching query engine.localStore) ∧
      ∀ registered ∈ info.listeners, Ready registered → seen registered.received = some (contents view.documentSet) := by
  have sound := consistent.sound
  unfold Sound at sound
  rw [listening] at sound
  cases viewed : engine.client.view with
  | none => simp [viewed] at sound
  | some view =>
    have opened : Open Anything view engine.client.onlineState info := by simpa [viewed] using sound
    exact ⟨view, rfl, consistent.backed view viewed, fun registered member ready => (opened.following registered member).seen_view ready⟩

section Backings

variable {documents other : DocumentSet query} {known : κ → Option (Document κ δ)}

theorem Backed.confirmed (backed : Backed documents known)
    (confirmed : ∀ key document, known key = some document → document.hasCommittedMutations = false) :
    ∃ full : DocumentSet query, documents.list = limited query full.list ∧
      ∀ key, (full.find key).map Document.content = (known key).map Document.content := by
  obtain ⟨full, cut, agrees⟩ := backed
  exact ⟨full, cut, fun key => (agrees key).content (confirmed key)⟩

variable [Std.TransOrd ν]

theorem Backed.contents_eq (first : Backed documents known) (second : Backed other known)
    (confirmed : ∀ key document, known key = some document → document.hasCommittedMutations = false) :
    contents documents = contents other := by
  obtain ⟨full, cut, shows⟩ := first.confirmed confirmed
  obtain ⟨whole, limit, holds⟩ := second.confirmed confirmed
  have same : contents full = contents whole := FireChat.Core.Proofs.contents_eq fun key => (shows key).trans (holds key).symm
  apply Keyed.Items.ext_list
  change documents.list.map Document.content = other.list.map Document.content
  rw [cut, limit]
  exact limited_map Document.content (congrArg Keyed.Items.list same)

end Backings

theorem Backed.pending_shows {documents : DocumentSet query} {store : LocalStore υ κ δ} (backed : Backed documents (matching query store))
    (unlimited : query.limitType = .none) {key : κ} {earlier : List (Mutation κ δ)} {mutation : Mutation κ δ}
    (written : about key (pending store) = earlier ++ [mutation]) :
    (documents.find key).map Document.content =
      ((mutation.applyToLocalView none).document?.filter query.matches).map Document.content := by
  obtain ⟨full, cut, agrees⟩ := backed
  rw [limited, if_pos unlimited] at cut
  have whole : documents.find key = full.find key := congrArg (List.find? _) cut
  have known : matching query store key =
      (mutation.applyToLocalView (overlay earlier (store.remoteDocumentCache.get key))).document?.filter query.matches := by
    rw [matching, localDocument, written, overlay_concat]
    rfl
  obtain ⟨same, confirmed⟩ := @applied_content _ _ _ query mutation (overlay earlier (store.remoteDocumentCache.get key))
  rw [whole, (agrees key).content (by rw [known]; exact confirmed), known, same]

variable [Std.TransOrd ν] [DecidableEq δ] [DecidableEq ℓ] [DecidableEq υ] {user : υ} {events : List (SyncEvent υ ℓ κ δ)}

def ordered : Query Nat Nat Nat := ⟨fun _ => true, [], [⟨.field some, .ascending⟩], .none, Target.kNoLimit, none, none⟩

def sentFirst : PreviousResults Nat := ⟨⟨5, 0⟩, [1], List.pairwise_singleton ..⟩

/-- A listener leaves after the server has sent a document. When the next one comes, a
write is pending, and then the server sends an old value of what is written. -/
def listenAgain : List (SyncEvent Nat Nat Nat Nat) :=
  [.addQueryListener 0 ListenOptions.defaultOptions .none none,
    .applyRemoteEvent (Keyed.Sorted.empty.insert (.document ⟨1, 4, ⟨5, 0⟩, .synced⟩)) ⟨5, 0⟩ (some ⟨true, {1}, ∅, ∅⟩),
    .removeQueryListener 0, .writeMutations [.set 2 7], .addQueryListener 1 ListenOptions.defaultOptions sentFirst none,
    .applyRemoteEvent (Keyed.Sorted.empty.insert (.document ⟨2, 9, ⟨6, 0⟩, .synced⟩)) ⟨6, 0⟩ none]

def stage (count : Nat) : SyncEngine Nat Nat ordered := ((SyncEngine.start 0).run (listenAgain.take count)).getD (SyncEngine.start 0)

theorem matching_known {key : Nat} {document : Document Nat Nat} {store : LocalStore Nat Nat Nat}
    (known : matching ordered store key = some document) :
    key ∈ (pending store).map Mutation.key ∨ key ∈ store.remoteDocumentCache.docs.list.map MaybeDocument.key := by
  by_contra neither
  obtain ⟨unwritten, uncached⟩ := not_or.mp neither
  have missing : store.remoteDocumentCache.get key = none := by
    cases found : store.remoteDocumentCache.get key with
    | none => rfl
    | some maybe => exact absurd (List.mem_map.mpr ⟨maybe, Keyed.Items.find_eq_some.mp found⟩) uncached
  rw [matching, localDocument, about_nil unwritten, missing] at known
  cases known

theorem stage_resumable (count : Nat) (writes : pending (stage count).localStore = [.set 2 7])
    (among : (stage count).localStore.remoteDocumentCache.docs.list.map MaybeDocument.key ⊆ [1, 2]) :
    Resumable ordered (stage count).localStore sentFirst := by
  intro _ key left passed other known
  have listed := matching_known known
  rw [writes] at listed
  obtain rfl | rfl : key = 2 ∨ key = 1 := by
    rcases listed with written | cached
    · exact .inl (List.mem_singleton.mp written)
    · exact (List.mem_pair.mp (among cached)).symm
  · have nothing := passed.1
    rw [writes] at nothing
    cases nothing
  · exact absurd (List.mem_singleton_self 1) other

theorem listenAgain_admissible :
    @Transition.Stepwise (SyncEngine Nat Nat ordered) _ SyncEngine.step Admissible (SyncEngine.start 0) listenAgain := by
  have silent : ∀ view : View ordered, TargetKnown view none := fun _ _ none => nomatch none
  refine (Transition.stepwise_cons (rfl : _ = some (stage 1))).mpr ⟨⟨fun _ listening => (nomatch listening), fun _ => ⟨silent _, ?_⟩⟩, ?_⟩
  · exact resumable_none ordered _
  refine (Transition.stepwise_cons (rfl : _ = some (stage 2))).mpr ⟨⟨.inl ⟨by decide, by decide⟩, ?_⟩, ?_⟩
  · intro view _ change same
    cases same
    exact Finset.empty_subset _
  refine (Transition.stepwise_cons (rfl : _ = some (stage 3))).mpr ⟨trivial, ?_⟩
  refine (Transition.stepwise_cons (rfl : _ = some (stage 4))).mpr ⟨List.cons_ne_nil _ _, ?_⟩
  refine (Transition.stepwise_cons (rfl : _ = some (stage 5))).mpr ⟨⟨fun _ listening => (nomatch listening), fun _ => ⟨silent _, ?_⟩⟩, ?_⟩
  · exact stage_resumable 4 rfl (by decide)
  exact (Transition.stepwise_cons (rfl : _ = some (stage 6))).mpr ⟨⟨.inl ⟨by decide, by decide⟩, fun view _ => silent view⟩, trivial⟩

theorem stage_confirmed (key : Nat) (document : Document Nat Nat)
    (found : matching ordered (stage 6).localStore key = some document) : document.hasCommittedMutations = false := by
  obtain rfl | rfl : key = 2 ∨ key = 1 := by
    rcases matching_known found with written | cached
    · exact .inl (List.mem_singleton.mp written)
    · exact (List.mem_pair.mp cached).symm
  · cases found
    rfl
  · cases found
    rfl

/-- Document 2 was read before the previous results, and is not among them. -/
def unlisted : LocalStore Nat Nat Nat :=
  { LocalStore.initial 0 with
    remoteDocumentCache := (RemoteDocumentCache.empty.add (.document ⟨2, 9, ⟨4, 0⟩, .synced⟩) ⟨4, 0⟩).add
      (.document ⟨1, 4, ⟨5, 0⟩, .synced⟩) ⟨5, 0⟩ }

-- Such a document is what `Resumable` rules out: the run that reuses its results misses it.
example : (unlisted.executeQuery ordered .none).map (fun docs => docs.list.map MaybeDocument.key) = some [1, 2] ∧
    (unlisted.executeQuery ordered sentFirst).map (fun docs => docs.list.map MaybeDocument.key) = some [1] :=
  ⟨rfl, rfl⟩

end FireChat.Core.Proofs
