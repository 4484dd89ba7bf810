import FireChat.Core.LocalStore

/-! The mutation queue. Its ids are consecutive, so looking a batch up by its distance
to the front finds it, and the index lists exactly the documents of the batches. -/

namespace FireChat.Core.Proofs

variable {κ δ : Type}

/-- In a list with consecutive ids the distance to the first one is the position. -/
theorem find?_consecutive {batches : List (MutationBatch κ δ)} {first : Nat}
    (ids : batches.map MutationBatch.batchId = List.range' first batches.length) (batchId : Nat) :
    (batches.find? fun batch => batch.batchId = batchId) = if batchId < first then none else batches[batchId - first]? := by
  induction batches generalizing first with
  | nil => simp
  | cons head rest ih =>
    rw [List.map_cons, List.length_cons, List.range'_succ] at ids
    obtain ⟨own, later⟩ := List.cons.inj ids
    by_cases here : head.batchId = batchId
    · rw [List.find?_cons_of_pos (by simpa using here), if_neg (by omega)]
      have position : batchId - first = 0 := by omega
      rw [position]
      rfl
    · rw [List.find?_cons_of_neg (by simpa using here), ih later]
      by_cases below : batchId < first
      · rw [if_pos (by omega), if_pos below]
      · have position : batchId - first = batchId - (first + 1) + 1 := by omega
        rw [if_neg (by omega), if_neg below, position, List.getElem?_cons_succ]

structure Indexed (queue : MutationQueue κ δ) : Prop where
  ids : queue.queue.map MutationBatch.batchId = List.range' (queue.nextBatchId - queue.queue.length) queue.queue.length
  bound : queue.queue.length ≤ queue.nextBatchId
  distinct : queue.batchesByDocumentKey.Nodup
  index : ∀ key batchId, (key, batchId) ∈ queue.batchesByDocumentKey ↔
    ∃ batch ∈ queue.queue, batch.batchId = batchId ∧ ∃ mutation ∈ batch.mutations, mutation.key = key

variable {queue : MutationQueue κ δ}

theorem indexed_empty : Indexed (MutationQueue.empty : MutationQueue κ δ) := by
  refine ⟨rfl, by simp [MutationQueue.empty], List.nodup_nil, ?_⟩
  intro key batchId
  simp [MutationQueue.empty]

theorem Indexed.increasing (indexed : Indexed queue) : queue.queue.Pairwise fun first second => first.batchId < second.batchId := by
  have sorted := @List.pairwise_lt_range' (queue.nextBatchId - queue.queue.length) queue.queue.length 1 (by omega)
  rw [← indexed.ids] at sorted
  exact List.pairwise_map.mp sorted

theorem Indexed.below (indexed : Indexed queue) {batch : MutationBatch κ δ} (member : batch ∈ queue.queue) :
    batch.batchId < queue.nextBatchId := by
  have listed : batch.batchId ∈ queue.queue.map MutationBatch.batchId := List.mem_map_of_mem member
  rw [indexed.ids, List.mem_range'_1] at listed
  have bound := indexed.bound
  omega

theorem Indexed.lookup (indexed : Indexed queue) (batchId : Nat) :
    queue.lookupMutationBatch batchId = some (queue.queue.find? fun batch => batch.batchId = batchId) := by
  have found := find?_consecutive indexed.ids batchId
  unfold MutationQueue.lookupMutationBatch
  cases list : queue.queue with
  | nil => rfl
  | cons front rest =>
    have start : front.batchId = queue.nextBatchId - queue.queue.length := by
      have ids := indexed.ids
      rw [list, List.map_cons, List.length_cons, List.range'_succ] at ids
      rw [list, List.length_cons]
      exact (List.cons.inj ids).1
    rw [← start, list] at found
    simp only
    rw [found]
    split
    next => rfl
    next inside =>
      split
      next missing => rw [missing]
      next batch held =>
        rw [if_neg inside, held] at found
        have same : batch.batchId = batchId := by simpa using List.find?_some found
        rw [held, if_pos same]

theorem Indexed.withIds (indexed : Indexed queue) (batchIds : List Nat) :
    queue.allMutationBatchesWithIds batchIds =
      some (batchIds.filterMap fun batchId => queue.queue.find? fun batch => batch.batchId = batchId) := by
  induction batchIds with
  | nil => rfl
  | cons batchId batchIds ih =>
    rw [MutationQueue.allMutationBatchesWithIds, indexed.lookup, Option.bind_some, ih, Option.map_some]
    cases found : queue.queue.find? fun batch => batch.batchId = batchId with
    | none => simp [found]
    | some batch => simp [found]

theorem unique_of_increasing {batches : List (MutationBatch κ δ)}
    (increasing : batches.Pairwise fun first second => first.batchId < second.batchId) {first second : MutationBatch κ δ}
    (left : first ∈ batches) (right : second ∈ batches) (same : first.batchId = second.batchId) : first = second := by
  have distinct : (batches.map MutationBatch.batchId).Nodup := by
    apply List.pairwise_map.mpr
    exact increasing.imp fun lower => Nat.ne_of_lt lower
  exact List.inj_on_of_nodup_map distinct left right same

/-- Batches in the order of their ids are determined by which ones they are. -/
theorem filterMap_find {batches : List (MutationBatch κ δ)}
    (increasing : batches.Pairwise fun first second => first.batchId < second.batchId) {batchIds : List Nat}
    (sorted : batchIds.Pairwise (· < ·)) :
    (batchIds.filterMap fun batchId => batches.find? fun batch => batch.batchId = batchId) =
      batches.filter fun batch => batch.batchId ∈ batchIds := by
  have found : ∀ batch, batch ∈ batches → (batches.find? fun other => other.batchId = batch.batchId) = some batch := by
    intro batch member
    cases held : batches.find? fun other => other.batchId = batch.batchId with
    | none =>
      have missing := List.find?_eq_none.mp held batch member
      simp at missing
    | some other =>
      have same : other.batchId = batch.batchId := by simpa using List.find?_some held
      rw [unique_of_increasing increasing (List.mem_of_find?_eq_some held) member same]
  have left : (batchIds.filterMap fun batchId => batches.find? fun batch => batch.batchId = batchId).Pairwise
      fun first second => first.batchId < second.batchId := by
    apply sorted.filterMap
    intro first second lower batch held other another
    have firstId : batch.batchId = first := by simpa using List.find?_some held
    have secondId : other.batchId = second := by simpa using List.find?_some another
    omega
  have right : (batches.filter fun batch => batch.batchId ∈ batchIds).Pairwise
      fun first second => first.batchId < second.batchId := increasing.filter _
  have members : ∀ batch, (batch ∈ batchIds.filterMap fun batchId => batches.find? fun batch => batch.batchId = batchId) ↔
      batch ∈ batches.filter fun batch => batch.batchId ∈ batchIds := by
    intro batch
    rw [List.mem_filterMap, List.mem_filter, decide_eq_true_iff]
    constructor
    · rintro ⟨batchId, listed, held⟩
      have same : batch.batchId = batchId := by simpa using List.find?_some held
      exact ⟨List.mem_of_find?_eq_some held, same ▸ listed⟩
    · rintro ⟨member, listed⟩
      exact ⟨batch.batchId, listed, found batch member⟩
  have perm := (List.perm_ext_iff_of_nodup (left.imp fun lower same => by simp [same] at lower)
    (right.imp fun lower same => by simp [same] at lower)).mpr members
  apply perm.eq_of_pairwise _ left right
  intro first second _ _ lower higher
  omega

/-- The lookups by document and by query return the batches that write there, oldest first. -/
theorem Indexed.affecting (indexed : Indexed queue) (selects : κ → Bool) :
    queue.allMutationBatchesAffecting selects =
      some (queue.queue.filter fun batch => batch.mutations.any fun mutation => selects mutation.key) := by
  let batchIds := ((queue.batchesByDocumentKey.filter fun reference => selects reference.1).map Prod.snd).dedup.insertionSort (· ≤ ·)
  have distinct : batchIds.Nodup := (List.perm_insertionSort _ _).nodup_iff.mpr (List.nodup_dedup _)
  have sorted : batchIds.Pairwise (· < ·) := by
    apply (List.pairwise_insertionSort (· ≤ ·) _).imp₂ _ distinct
    intro first second before different
    exact Nat.lt_of_le_of_ne before different
  have selected : ∀ batch ∈ queue.queue,
      (batch.batchId ∈ batchIds ↔ (batch.mutations.any fun mutation => selects mutation.key) = true) := by
    intro batch member
    rw [List.any_eq_true, List.mem_insertionSort, List.mem_dedup, List.mem_map]
    constructor
    · rintro ⟨⟨key, batchId⟩, listed, own⟩
      obtain ⟨reference, chosen⟩ := List.mem_filter.mp listed
      obtain ⟨other, held, same, mutation, written, keyed⟩ := (indexed.index key batchId).mp reference
      rw [unique_of_increasing indexed.increasing held member (same.trans own)] at written
      exact ⟨mutation, written, by rw [keyed]; exact chosen⟩
    · rintro ⟨mutation, written, chosen⟩
      refine ⟨(mutation.key, batch.batchId), List.mem_filter.mpr ⟨?_, chosen⟩, rfl⟩
      exact (indexed.index mutation.key batch.batchId).mpr ⟨batch, member, rfl, mutation, written, rfl⟩
  unfold MutationQueue.allMutationBatchesAffecting
  rw [indexed.withIds, filterMap_find indexed.increasing sorted]
  congr 1
  apply List.filter_congr
  intro batch member
  rw [Bool.eq_iff_iff, decide_eq_true_iff]
  exact selected batch member

theorem Indexed.start (indexed : Indexed queue) : Indexed queue.start ∧ queue.start.queue = queue.queue := by
  unfold MutationQueue.start
  split
  next vacant =>
    have nothing : queue.queue = [] := by simpa using vacant
    refine ⟨⟨by simp [nothing], by simp [nothing], indexed.distinct, ?_⟩, rfl⟩
    exact indexed.index
  next => exact ⟨indexed, rfl⟩

variable [LinearOrder κ]

theorem mem_insertAll (mutations : List (Mutation κ δ)) (batchId : Nat) (index : List (κ × Nat)) (reference : κ × Nat) :
    reference ∈ mutations.foldl (fun index mutation => index.insert (mutation.key, batchId)) index ↔
      reference ∈ index ∨ reference.2 = batchId ∧ ∃ mutation ∈ mutations, mutation.key = reference.1 := by
  induction mutations generalizing index with
  | nil => simp
  | cons mutation mutations ih =>
    rw [List.foldl_cons, ih, List.mem_insert_iff]
    constructor
    · rintro ((rfl | held) | ⟨same, other, written, keyed⟩)
      · exact .inr ⟨rfl, mutation, List.mem_cons_self, rfl⟩
      · exact .inl held
      · exact .inr ⟨same, other, List.mem_cons_of_mem _ written, keyed⟩
    · rintro (held | ⟨same, other, written, keyed⟩)
      · exact .inl (.inr held)
      · rcases List.mem_cons.mp written with rfl | later
        · exact .inl (.inl (Prod.ext keyed.symm same))
        · exact .inr ⟨same, other, later, keyed⟩

theorem nodup_insertAll (mutations : List (Mutation κ δ)) (batchId : Nat) {index : List (κ × Nat)} (distinct : index.Nodup) :
    (mutations.foldl (fun index mutation => index.insert (mutation.key, batchId)) index).Nodup := by
  induction mutations generalizing index with
  | nil => exact distinct
  | cons mutation mutations ih => exact ih distinct.insert

theorem mem_eraseAll (mutations : List (Mutation κ δ)) (batchId : Nat) {index : List (κ × Nat)} (distinct : index.Nodup)
    (reference : κ × Nat) :
    reference ∈ mutations.foldl (fun index mutation => index.erase (mutation.key, batchId)) index ↔
      reference ∈ index ∧ ¬(reference.2 = batchId ∧ ∃ mutation ∈ mutations, mutation.key = reference.1) := by
  induction mutations generalizing index with
  | nil => simp
  | cons mutation mutations ih =>
    rw [List.foldl_cons, ih (distinct.erase _), distinct.mem_erase_iff]
    constructor
    · rintro ⟨⟨different, held⟩, kept⟩
      refine ⟨held, ?_⟩
      rintro ⟨same, other, written, keyed⟩
      rcases List.mem_cons.mp written with rfl | later
      · exact different (Prod.ext keyed.symm same)
      · exact kept ⟨same, other, later, keyed⟩
    · rintro ⟨held, kept⟩
      refine ⟨⟨?_, held⟩, ?_⟩
      · rintro rfl
        exact kept ⟨rfl, mutation, List.mem_cons_self, rfl⟩
      · rintro ⟨same, other, written, keyed⟩
        exact kept ⟨same, other, List.mem_cons_of_mem _ written, keyed⟩

theorem nodup_eraseAll (mutations : List (Mutation κ δ)) (batchId : Nat) {index : List (κ × Nat)} (distinct : index.Nodup) :
    (mutations.foldl (fun index mutation => index.erase (mutation.key, batchId)) index).Nodup := by
  induction mutations generalizing index with
  | nil => exact distinct
  | cons mutation mutations ih => exact ih (distinct.erase _)

theorem Indexed.add (indexed : Indexed queue) {mutations : List (Mutation κ δ)} (some_mutation : mutations ≠ []) :
    ∃ batch next, queue.addMutationBatch mutations = some (batch, next) ∧ Indexed next ∧
      next.queue = queue.queue ++ [batch] ∧ batch.mutations = mutations := by
  let batch : MutationBatch κ δ := ⟨queue.nextBatchId, mutations⟩
  have ordered : queue.queue.getLast?.all fun prior => prior.batchId < queue.nextBatchId := by
    cases last : queue.queue.getLast? with
    | none => rfl
    | some prior => simpa using indexed.below (List.mem_of_getLast? last)
  refine ⟨batch, _, if_neg (by simp [some_mutation, ordered]), ⟨?_, ?_, nodup_insertAll _ _ indexed.distinct, ?_⟩, rfl, rfl⟩
  · have bound := indexed.bound
    have first : queue.nextBatchId + 1 - (queue.queue.length + 1) = queue.nextBatchId - queue.queue.length := by omega
    have last : queue.nextBatchId - queue.queue.length + 1 * queue.queue.length = queue.nextBatchId := by omega
    rw [List.map_append, List.length_append, List.length_singleton, first, List.range'_concat, ← indexed.ids, last]
    rfl
  · have bound := indexed.bound
    rw [List.length_append, List.length_singleton]
    exact Nat.succ_le_succ bound
  · intro key batchId
    rw [mem_insertAll, indexed.index]
    constructor
    · rintro (⟨other, held, written⟩ | ⟨same, written⟩)
      · exact ⟨other, List.mem_append_left _ held, written⟩
      · exact ⟨batch, List.mem_concat_self, same.symm, written⟩
    · rintro ⟨other, held, same, written⟩
      rcases List.mem_append.mp held with old | new
      · exact .inl ⟨other, old, same, written⟩
      · cases List.mem_singleton.mp new
        exact .inr ⟨same.symm, written⟩

theorem Indexed.remove (indexed : Indexed queue) {batch : MutationBatch κ δ} {rest : List (MutationBatch κ δ)}
    (front : queue.queue = batch :: rest) :
    ∃ next, (queue.removeMutationBatch batch).bind MutationQueue.performConsistencyCheck = some next ∧ Indexed next ∧
      next.queue = rest := by
  let next : MutationQueue κ δ :=
    { queue with
      queue := rest
      batchesByDocumentKey := batch.mutations.foldl (fun index mutation => index.erase (mutation.key, batch.batchId))
        queue.batchesByDocumentKey }
  have removed : queue.removeMutationBatch batch = some next := by
    unfold MutationQueue.removeMutationBatch
    rw [front]
    exact if_pos rfl
  have kept : Indexed next := by
    have ids := indexed.ids
    have bound := indexed.bound
    rw [front, List.length_cons] at ids bound
    rw [List.map_cons, List.range'_succ] at ids
    obtain ⟨own, later⟩ := List.cons.inj ids
    refine ⟨?_, ?_, nodup_eraseAll _ _ indexed.distinct, ?_⟩
    · have first : queue.nextBatchId - (rest.length + 1) + 1 = queue.nextBatchId - rest.length := by omega
      rw [first] at later
      exact later
    · change rest.length ≤ queue.nextBatchId
      omega
    · intro key batchId
      have increasing := indexed.increasing
      rw [front, List.pairwise_cons] at increasing
      rw [mem_eraseAll _ _ indexed.distinct, indexed.index, front]
      constructor
      · rintro ⟨⟨other, held, same, written⟩, unremoved⟩
        rcases List.mem_cons.mp held with rfl | member
        · exact absurd ⟨same.symm, written⟩ unremoved
        · exact ⟨other, member, same, written⟩
      · rintro ⟨other, member, same, written⟩
        refine ⟨⟨other, List.mem_cons_of_mem _ member, same, written⟩, ?_⟩
        rintro ⟨removedId, _⟩
        have later := increasing.1 other member
        omega
  refine ⟨next, ?_, kept, rfl⟩
  rw [removed, Option.bind_some]
  unfold MutationQueue.performConsistencyCheck
  apply if_neg
  intro leak
  obtain ⟨vacant, dangling⟩ := Bool.and_eq_true_iff.mp leak
  have nothing : next.queue = [] := by simpa using vacant
  cases references : next.batchesByDocumentKey with
  | nil => simp [references] at dangling
  | cons reference others =>
    obtain ⟨other, held, _⟩ := (kept.index reference.1 reference.2).mp (by rw [references]; exact List.mem_cons_self)
    rw [nothing] at held
    cases held

end FireChat.Core.Proofs
