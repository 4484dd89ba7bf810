import FireChat.Proofs.MutationQueues

/-! The documents that a local store shows: those of the server under the mutations
that it has yet to acknowledge. Each operation reports every document that it changes. -/

namespace FireChat.Core.Proofs

variable {κ δ : Type}

section Overlays

/-- What mutations make of the document that they are laid over, one after the other. -/
def overlay (mutations : List (Mutation κ δ)) (base : Option (MaybeDocument κ δ)) : Option (MaybeDocument κ δ) :=
  mutations.foldl (fun maybeDoc mutation => some (mutation.applyToLocalView maybeDoc)) base

theorem overlay_append (first second : List (Mutation κ δ)) (base : Option (MaybeDocument κ δ)) :
    overlay (first ++ second) base = overlay second (overlay first base) :=
  List.foldl_append

theorem overlay_concat (mutations : List (Mutation κ δ)) (mutation : Mutation κ δ) (base : Option (MaybeDocument κ δ)) :
    overlay (mutations ++ [mutation]) base = some (mutation.applyToLocalView (overlay mutations base)) :=
  overlay_append mutations [mutation] base

theorem applyToLocalView_key (mutation : Mutation κ δ) (maybeDoc : Option (MaybeDocument κ δ)) :
    (mutation.applyToLocalView maybeDoc).key = mutation.key := by
  cases mutation <;> rfl

theorem overlay_version (mutations : List (Mutation κ δ)) :
    (∀ base, Mutation.getPostMutationVersion (overlay mutations base) = SnapshotVersion.none) ∨
      ∀ base, Mutation.getPostMutationVersion (overlay mutations base) = Mutation.getPostMutationVersion base := by
  induction mutations using List.reverseRecOn with
  | nil => exact .inr fun _ => rfl
  | append_singleton mutations mutation ih =>
    simp only [overlay_concat]
    cases mutation with
    | set key value => exact ih
    | delete key => exact .inl fun _ => rfl

/-- Mutations that were made once more leave what they made at first. -/
theorem overlay_idem (mutations : List (Mutation κ δ)) (base : Option (MaybeDocument κ δ)) :
    overlay mutations (overlay mutations base) = overlay mutations base := by
  obtain rfl | ⟨earlier, last, rfl⟩ := List.eq_nil_or_concat' mutations
  · rfl
  · rw [overlay_concat, overlay_concat]
    cases last with
    | delete key => rfl
    | set key value =>
      have version : Mutation.getPostMutationVersion (overlay earlier (some ((Mutation.set key value).applyToLocalView (overlay earlier base)))) =
          Mutation.getPostMutationVersion (overlay earlier base) := by
        rcases overlay_version earlier with forgets | keeps
        · rw [forgets, forgets]
        · rw [keeps]
          rfl
      simp only [Mutation.applyToLocalView] at version ⊢
      rw [version]

abbrev showing (maybeDoc : Option (MaybeDocument κ δ)) : Option (Document κ δ) := maybeDoc.bind MaybeDocument.document?

/-- A missing document is as good as a deleted one. -/
theorem overlay_showing {first second : Option (MaybeDocument κ δ)} (same : showing first = showing second)
    (mutations : List (Mutation κ δ)) : showing (overlay mutations first) = showing (overlay mutations second) := by
  have version : ∀ maybeDoc : Option (MaybeDocument κ δ), Mutation.getPostMutationVersion maybeDoc =
      ((showing maybeDoc).map Document.version).getD SnapshotVersion.none := by
    rintro (_ | known | gone)
    · rfl
    · rfl
    · rfl
  induction mutations using List.reverseRecOn with
  | nil => exact same
  | append_singleton mutations mutation ih =>
    rw [overlay_concat, overlay_concat]
    cases mutation with
    | delete key => rfl
    | set key value =>
      simp only [Mutation.applyToLocalView, version, ih]

end Overlays

variable [LinearOrder κ]

def about (key : κ) (mutations : List (Mutation κ δ)) : List (Mutation κ δ) :=
  mutations.filter fun mutation => mutation.key = key

theorem about_append (key : κ) (first second : List (Mutation κ δ)) : about key (first ++ second) = about key first ++ about key second :=
  List.filter_append first second

theorem about_nil {mutations : List (Mutation κ δ)} {key : κ} (others : key ∉ mutations.map Mutation.key) : about key mutations = [] := by
  apply List.filter_eq_nil_iff.mpr
  intro mutation member
  have different : mutation.key ≠ key := fun same => others (same ▸ List.mem_map_of_mem member)
  simpa using different

theorem overlay_about_some {mutations : List (Mutation κ δ)} {key : κ} (written : key ∈ mutations.map Mutation.key)
    (base : Option (MaybeDocument κ δ)) : ∃ maybeDoc, overlay (about key mutations) base = some maybeDoc ∧ maybeDoc.key = key := by
  obtain ⟨mutation, member, keyed⟩ := List.mem_map.mp written
  obtain nothing | ⟨earlier, last, list⟩ := List.eq_nil_or_concat' (about key mutations)
  · have listed : mutation ∈ about key mutations := List.mem_filter.mpr ⟨member, by simpa using keyed⟩
    rw [nothing] at listed
    cases listed
  · have own : last ∈ about key mutations := by
      rw [list]
      exact List.mem_concat_self
    refine ⟨_, by rw [list, overlay_concat], ?_⟩
    rw [applyToLocalView_key]
    simpa using (List.mem_filter.mp own).2

theorem overlay_about_key {mutations : List (Mutation κ δ)} {key : κ} {base : Option (MaybeDocument κ δ)} {maybeDoc : MaybeDocument κ δ}
    (own : ∀ known, base = some known → known.key = key) (laid : overlay (about key mutations) base = some maybeDoc) : maybeDoc.key = key := by
  by_cases written : key ∈ mutations.map Mutation.key
  · obtain ⟨known, found, keyed⟩ := overlay_about_some written base
    rw [found] at laid
    cases laid
    exact keyed
  · rw [about_nil written] at laid
    exact own maybeDoc laid

theorem applyToLocalDocument_eq (batch : MutationBatch κ δ) (key : κ) (maybeDoc : Option (MaybeDocument κ δ)) :
    batch.applyToLocalDocument key maybeDoc = overlay (about key batch.mutations) maybeDoc := rfl

/-- Batches about other documents can be left out. -/
theorem about_affecting {selects : κ → Bool} {key : κ} (selected : selects key) (batches : List (MutationBatch κ δ)) :
    about key ((batches.filter fun batch => batch.mutations.any fun mutation => selects mutation.key).flatMap MutationBatch.mutations) =
      about key (batches.flatMap MutationBatch.mutations) := by
  induction batches with
  | nil => rfl
  | cons batch batches ih =>
    rw [List.flatMap_cons, about_append, ← ih, List.filter_cons]
    split
    next => rw [List.flatMap_cons, about_append]
    next unaffected =>
      have others : key ∉ batch.mutations.map Mutation.key := by
        intro written
        obtain ⟨mutation, member, keyed⟩ := List.mem_map.mp written
        exact unaffected (List.any_eq_true.mpr ⟨mutation, member, by rw [keyed]; exact selected⟩)
      rw [about_nil others, List.nil_append]

theorem foldl_batches (key : κ) (batches : List (MutationBatch κ δ)) (base : Option (MaybeDocument κ δ)) :
    batches.foldl (fun localView batch => batch.applyToLocalDocument key localView) base =
      overlay (about key (batches.flatMap MutationBatch.mutations)) base := by
  induction batches generalizing base with
  | nil => rfl
  | cons batch batches ih => rw [List.foldl_cons, ih, List.flatMap_cons, about_append, overlay_append, applyToLocalDocument_eq]

theorem find_applyToLocalDocumentSet (batch : MutationBatch κ δ) (documentSet : MaybeDocumentMap κ δ) (key : κ) :
    (batch.applyToLocalDocumentSet documentSet).find key =
      if key ∈ batch.mutations.map Mutation.key then overlay (about key batch.mutations) (documentSet.find key) else documentSet.find key := by
  suffices applied : ∀ (mutations : List (Mutation κ δ)) (documents : MaybeDocumentMap κ δ), (∀ mutation ∈ mutations, mutation ∈ batch.mutations) →
      (mutations.foldl batch.applyToLocalDocumentAt documents).find key =
      if key ∈ mutations.map Mutation.key then overlay (about key batch.mutations) (documents.find key) else documents.find key from
    applied batch.mutations documentSet fun _ member => member
  intro mutations
  induction mutations with
  | nil => intro documents _; rfl
  | cons mutation mutations ih =>
    intro documents among
    have written : mutation.key ∈ batch.mutations.map Mutation.key := List.mem_map_of_mem (among mutation List.mem_cons_self)
    obtain ⟨mutatedDocument, laid, keyed⟩ := overlay_about_some written (documents.find mutation.key)
    rw [List.foldl_cons, ih _ fun other later => among other (List.mem_cons_of_mem _ later), MutationBatch.applyToLocalDocumentAt,
      applyToLocalDocument_eq, laid]
    simp only [Keyed.Sorted.find_insert, keyed, List.map_cons, List.mem_cons]
    by_cases own : mutation.key = key
    · subst own
      simp only [if_true, true_or, ← laid, overlay_idem, ite_self]
    · simp only [own, Ne.symm own, if_false, false_or]

section Stores

variable {υ : Type}

def pending (store : LocalStore υ κ δ) : List (Mutation κ δ) := store.mutationQueue.queue.flatMap MutationBatch.mutations

def localDocument (store : LocalStore υ κ δ) (key : κ) : Option (MaybeDocument κ δ) :=
  overlay (about key (pending store)) (store.remoteDocumentCache.get key)

/-- Every document whose view may have changed is among the changes, as it is now. -/
def Reports (store next : LocalStore υ κ δ) (changes : MaybeDocumentMap κ δ) : Prop :=
  ∀ key, match changes.find key with
    | some maybeDoc => maybeDoc.document? = showing (localDocument next key)
    | none => showing (localDocument next key) = showing (localDocument store key)

def Dated (cache : RemoteDocumentCache κ δ) : Prop := ∀ key, (cache.get key).isSome → SnapshotVersion.none < cache.readTimes key

theorem Dated.add {cache : RemoteDocumentCache κ δ} (dated : Dated cache) (document : MaybeDocument κ δ) {readTime : Timestamp}
    (read : SnapshotVersion.none < readTime) : Dated (cache.add document readTime) := by
  intro key held
  rw [RemoteDocumentCache.readTimes_add]
  split
  next => exact read
  next other =>
    rw [RemoteDocumentCache.get_add, if_neg other] at held
    exact dated key held

theorem Dated.remove {cache : RemoteDocumentCache κ δ} (dated : Dated cache) (gone : κ) : Dated (cache.remove gone) := by
  intro key held
  rw [RemoteDocumentCache.get_remove] at held
  split at held
  next => cases held
  next => exact dated key held

/-- The queues are indexed, the cache is dated, and time does not run backwards. -/
structure Intact (store : LocalStore υ κ δ) : Prop where
  indexed : ∀ user, Indexed (store.queues user)
  dated : Dated store.remoteDocumentCache
  advanced : SnapshotVersion.none ≤ store.lastRemoteSnapshotVersion

theorem Intact.current {store : LocalStore υ κ δ} (intact : Intact store) : Indexed store.mutationQueue := intact.indexed store.user

theorem intact_initial (user : υ) : Intact (LocalStore.initial user : LocalStore υ κ δ) where
  indexed _ := indexed_empty
  dated _ held := nomatch held
  advanced := le_refl _

theorem cached_key (cache : RemoteDocumentCache κ δ) (key : κ) : ∀ known, cache.get key = some known → known.key = key :=
  fun _ found => (Keyed.Items.find_eq_some.mp found).2

theorem getLocalView_spec {store : LocalStore υ κ δ} (intact : Intact store) {base : κ → Option (MaybeDocument κ δ)}
    (own : ∀ key known, base key = some known → known.key = key) (keys : List κ) :
    ∃ docs, store.getLocalViewOfDocuments (keys.map fun key => (key, base key)) = some docs ∧ ∀ key, docs.find key =
      if key ∈ keys then some ((overlay (about key (pending store)) (base key)).getD (.noDocument key SnapshotVersion.none false))
      else none := by
  have names : (keys.map fun key => (key, base key)).map Prod.fst = keys := by
    rw [List.map_map]
    exact List.map_id keys
  unfold LocalStore.getLocalViewOfDocuments MutationQueue.allMutationBatchesAffectingDocumentKeys
  rw [names, intact.current.affecting, Option.map_some, List.foldl_map]
  refine ⟨_, rfl, ?_⟩
  intro key
  have laid : ∀ key ∈ keys, (store.mutationQueue.queue.filter fun batch => batch.mutations.any fun mutation => decide (mutation.key ∈ keys)).foldl
      (fun localView batch => batch.applyToLocalDocument key localView) (base key) = overlay (about key (pending store)) (base key) := by
    intro key member
    rw [foldl_batches, @about_affecting _ _ _ (fun key => decide (key ∈ keys)) key (by simpa using member)]
    rfl
  rw [Keyed.Sorted.find_foldl_insert]
  · by_cases member : key ∈ keys
    · rw [if_pos member, if_pos member, laid key member]
    · rw [if_neg member, if_neg member]
      rfl
  · intro key member
    rw [laid key member]
    cases written : overlay (about key (pending store)) (base key) with
    | none => rfl
    | some maybeDoc => exact overlay_about_key (own key) written

theorem getLocalView_reports {store next : LocalStore υ κ δ} (intact : Intact next) {base : κ → Option (MaybeDocument κ δ)} {keys : List κ}
    (own : ∀ key known, base key = some known → known.key = key)
    (touched : ∀ key ∈ keys, showing (base key) = showing (next.remoteDocumentCache.get key))
    (others : ∀ key ∉ keys, showing (localDocument next key) = showing (localDocument store key)) :
    ∃ changes, next.getLocalViewOfDocuments (keys.map fun key => (key, base key)) = some changes ∧ Reports store next changes := by
  obtain ⟨changes, looked, found⟩ := getLocalView_spec intact own keys
  refine ⟨changes, looked, ?_⟩
  intro key
  rw [found key]
  by_cases member : key ∈ keys
  · rw [if_pos member]
    have same := overlay_showing (touched key member) (about key (pending next))
    change _ = showing (localDocument next key)
    rw [localDocument, ← same]
    cases overlay (about key (pending next)) (base key) with
    | none => rfl
    | some maybeDoc => rfl
  · rw [if_neg member]
    exact others key member

theorem getDocuments_reports {store next : LocalStore υ κ δ} (intact : Intact next) {keys : List κ}
    (others : ∀ key ∉ keys, showing (localDocument next key) = showing (localDocument store key)) :
    ∃ changes, next.getDocuments keys = some changes ∧ Reports store next changes :=
  getLocalView_reports intact (cached_key next.remoteDocumentCache) (fun _ _ => rfl) others

end Stores

end FireChat.Core.Proofs
