import FireChat.Core.QueryEngine
import FireChat.Proofs.LocalDocuments

/-! Scanning the local documents for those that match a query. Documents that were not
read since a given time are passed over, unless a write to them is pending. -/

namespace FireChat.Core.Proofs

variable {κ δ υ ν : Type} (query : Query κ δ ν)

/-- What a view looks at: everything but the version. -/
def face (document : Document κ δ) : (κ × δ) × DocumentState := (document.content, document.state)

def seenBy (maybeDoc : Option (MaybeDocument κ δ)) : Option ((κ × δ) × DocumentState) :=
  ((showing maybeDoc).filter query.matches).map face

theorem seenBy_applied (mutation : Mutation κ δ) (first second : Option (MaybeDocument κ δ)) :
    seenBy query (some (mutation.applyToLocalView first)) = seenBy query (some (mutation.applyToLocalView second)) := by
  cases mutation with
  | delete key => rfl
  | set key value =>
    have same : query.matches ⟨key, value, Mutation.getPostMutationVersion first, .localMutations⟩ =
        query.matches ⟨key, value, Mutation.getPostMutationVersion second, .localMutations⟩ := query.matches_congr rfl
    simp only [seenBy, showing, Mutation.applyToLocalView, Option.bind_some, MaybeDocument.document?, Option.filter_some, same]
    split
    · rfl
    · rfl

theorem seenBy_overlay {first second : Option (MaybeDocument κ δ)} (same : seenBy query first = seenBy query second)
    (mutations : List (Mutation κ δ)) : seenBy query (overlay mutations first) = seenBy query (overlay mutations second) := by
  induction mutations using List.reverseRecOn with
  | nil => exact same
  | append_singleton mutations mutation _ =>
    rw [overlay_concat, overlay_concat]
    exact seenBy_applied query mutation _ _

def fits (maybeDoc : MaybeDocument κ δ) : Bool := maybeDoc.document?.any query.matches

theorem showing_filter (maybeDoc : Option (MaybeDocument κ δ)) :
    showing (maybeDoc.filter (fits query)) = (showing maybeDoc).filter query.matches := by
  rcases maybeDoc with _ | known | gone
  · rfl
  · by_cases fit : query.matches known
    · simp [showing, Option.filter_some, fits, MaybeDocument.document?, fit]
    · simp [showing, Option.filter_some, fits, MaybeDocument.document?, fit]
  · rfl

theorem seenBy_outside {key : κ} (outside : ¬query.path key) (maybeDoc : Option (MaybeDocument κ δ))
    (own : ∀ known, maybeDoc = some known → known.key = key) : seenBy query maybeDoc = none := by
  rcases maybeDoc with _ | known | gone
  · rfl
  · have keyed : known.key = key := own _ rfl
    simp [seenBy, showing, MaybeDocument.document?, Query.matches, keyed, outside]
  · rfl

variable [LinearOrder κ]

theorem applyMutation_find (results : MaybeDocumentMap κ δ) (mutation : Mutation κ δ) {key : κ} (inside : query.path key) :
    showing ((LocalStore.applyMutation query results mutation).find key) =
      if mutation.key = key then showing (some (mutation.applyToLocalView (results.find key))) else showing (results.find key) := by
  unfold LocalStore.applyMutation
  by_cases own : mutation.key = key
  · subst own
    rw [if_pos inside, if_pos rfl]
    cases mutation with
    | set key value =>
      simp only [Mutation.applyToLocalView, Keyed.Sorted.find_insert]
      exact if_pos rfl ▸ rfl
    | delete key =>
      simp only [Mutation.applyToLocalView, Mutation.key, Keyed.Sorted.find_erase, if_true]
      rfl
  · rw [if_neg own]
    split
    next =>
      cases mutation with
      | set other value =>
        have different : other ≠ key := own
        simp only [Mutation.applyToLocalView, Keyed.Sorted.find_insert, MaybeDocument.key, different, if_false]
      | delete other =>
        have different : other ≠ key := own
        simp only [Mutation.applyToLocalView, Mutation.key, Keyed.Sorted.find_erase, different, if_false]
    next => rfl

theorem applyMutations_seenBy {key : κ} (inside : query.path key) (mutations : List (Mutation κ δ)) (results : MaybeDocumentMap κ δ) :
    seenBy query ((mutations.foldl (LocalStore.applyMutation query) results).find key) =
      seenBy query (overlay (about key mutations) (results.find key)) := by
  induction mutations generalizing results with
  | nil => rfl
  | cons mutation mutations ih =>
    have first := applyMutation_find query results mutation inside
    rw [List.foldl_cons, ih]
    by_cases own : mutation.key = key
    · have list : about key (mutation :: mutations) = [mutation] ++ about key mutations := by
        rw [about, List.filter_cons, if_pos (by simpa using own)]
        rfl
      rw [if_pos own] at first
      rw [list, overlay_append]
      apply seenBy_overlay
      rw [seenBy, first]
      rfl
    · have list : about key (mutation :: mutations) = about key mutations := by
        rw [about, List.filter_cons, if_neg (by simpa using own)]
        rfl
      rw [if_neg own] at first
      rw [list]
      apply seenBy_overlay
      rw [seenBy, first]
      rfl

variable {store : LocalStore υ κ δ}

def readSince (store : LocalStore υ κ δ) (sinceReadTime : Timestamp) (key : κ) : Option (MaybeDocument κ δ) :=
  if sinceReadTime < store.remoteDocumentCache.readTimes key then store.remoteDocumentCache.get key else none

theorem getMatching_readSince (store : LocalStore υ κ δ) (sinceReadTime : Timestamp) (key : κ) :
    (store.remoteDocumentCache.getMatching query sinceReadTime).find key = (readSince store sinceReadTime key).filter (fits query) := by
  rw [RemoteDocumentCache.find_getMatching]
  cases held : store.remoteDocumentCache.get key with
  | none => simp [readSince, held]
  | some maybe =>
    rw [Option.filter_some, cached_key store.remoteDocumentCache key maybe held, readSince, held]
    by_cases late : sinceReadTime < store.remoteDocumentCache.readTimes key
    · rw [if_pos late, Option.filter_some, decide_eq_true late, Bool.true_and]
      rfl
    · simp [late]

/-- A scan finds just the documents that match, with what is pending laid over what was read since. -/
theorem getDocumentsMatchingQuery_spec (intact : Intact store) (sinceReadTime : Timestamp) :
    ∃ docs, store.getDocumentsMatchingQuery query sinceReadTime = some docs ∧
      (∀ maybe ∈ docs.list, ∃ document, maybe = .document document ∧ query.matches document) ∧
      ∀ key, (showing (docs.find key)).map face =
        seenBy query (overlay (about key (pending store)) (readSince store sinceReadTime key)) := by
  let matchingBatches := store.mutationQueue.queue.filter fun batch => batch.mutations.any fun mutation => query.path mutation.key
  let cached := store.remoteDocumentCache.getMatching query sinceReadTime
  let results := (matchingBatches.flatMap MutationBatch.mutations).foldl (LocalStore.applyMutation query) cached
  refine ⟨results.filter (fits query), ?_, ?_, ?_⟩
  · unfold LocalStore.getDocumentsMatchingQuery MutationQueue.allMutationBatchesAffectingQuery
    rw [intact.current.affecting]
    rfl
  · intro maybe member
    have fit : fits query maybe := (List.mem_filter.mp member).2
    cases maybe with
    | noDocument => cases fit
    | document known => exact ⟨known, rfl, fit⟩
  · intro key
    rw [Keyed.Sorted.find_filter, showing_filter]
    change seenBy query (results.find key) = _
    by_cases inside : query.path key
    · have affecting := about_affecting inside store.mutationQueue.queue
      rw [applyMutations_seenBy query inside]
      change seenBy query (overlay (about key (matchingBatches.flatMap MutationBatch.mutations)) _) = seenBy query (overlay (about key (pending store)) _)
      rw [affecting]
      apply seenBy_overlay
      rw [getMatching_readSince, seenBy, showing_filter, Option.filter_filter]
      simp [seenBy]
    · have own : ∀ known, readSince store sinceReadTime key = some known → known.key = key := by
        intro known found
        exact cached_key store.remoteDocumentCache key known (Option.ite_none_right_eq_some.mp found).2
      rw [seenBy_outside query inside _ (fun known found => (Keyed.Items.find_eq_some.mp found).2), seenBy_outside query inside]
      intro known found
      exact overlay_about_key own found

end FireChat.Core.Proofs
