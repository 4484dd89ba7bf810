import FireChat.Core.EventManager
import FireChat.Proofs.DocumentChanges

/-! What a view emits. A snapshot leads from the documents of the view before to
those after; without one the documents and the sync state have not changed. -/

namespace FireChat.Core.Proofs

variable {κ δ ν : Type} [LinearOrder κ] [Ord ν] {query : Query κ δ ν}

theorem Tracked.unique {documents : DocumentSet query} {first second : Finset κ} (left : Tracked documents first)
    (right : Tracked documents second) : first = second := by
  ext key
  rw [left key, right key]

theorem perm_sortChanges (changes : List (DocumentViewChange κ δ)) : (View.sortChanges query changes).Perm changes :=
  List.perm_insertionSort _ changes

section Sorting

variable [Std.TransOrd ν]

instance transCmp_compareChanges : Std.TransCmp (View.compareChanges query) := by
  have documents : Std.TransCmp fun lhs rhs : DocumentViewChange κ δ => query.comparator lhs.document rhs.document :=
    { eq_swap := Std.OrientedCmp.eq_swap, isLE_trans := Std.TransCmp.isLE_trans }
  exact inferInstanceAs (Std.TransCmp (compareLex
    (compareOn fun change : DocumentViewChange κ δ => View.changeTypePosition change.type)
    fun lhs rhs => query.comparator lhs.document rhs.document))

theorem pairwise_sortChanges (changes : List (DocumentViewChange κ δ)) :
    (View.sortChanges query changes).Pairwise fun lhs rhs => (View.compareChanges query lhs rhs).isLE := by
  have total : Std.Total fun lhs rhs : DocumentViewChange κ δ => (View.compareChanges query lhs rhs).isLE = true := by
    refine ⟨fun lhs rhs => ?_⟩
    cases below : (View.compareChanges query lhs rhs).isLE with
    | true => exact Or.inl rfl
    | false =>
      have above := Std.OrientedCmp.lt_of_not_isLE (Bool.eq_false_iff.mp below)
      exact Or.inr (Ordering.isLE_of_eq_lt above)
  have trans : IsTrans (DocumentViewChange κ δ) fun lhs rhs => (View.compareChanges query lhs rhs).isLE = true :=
    ⟨fun _ _ _ first second => Std.TransCmp.isLE_trans first second⟩
  exact List.pairwise_insertionSort _ changes

theorem sorted_sortChanges {changes : List (DocumentViewChange κ δ)}
    (distinct : (changes.map fun change => change.document.key).Nodup) :
    (View.sortChanges query changes).Pairwise fun first second =>
      first.type = .added → second.type = .added → query.comparator first.document second.document = .lt := by
  have apart : (View.sortChanges query changes).Pairwise fun first second => first.document.key ≠ second.document.key := by
    have nodup := ((@perm_sortChanges _ _ _ _ _ query changes).map fun change => change.document.key).nodup_iff.mpr distinct
    exact List.pairwise_map.mp nodup
  refine ((pairwise_sortChanges changes).and apart).imp ?_
  rintro first second ⟨below, different⟩ left right
  have compared : (query.comparator first.document second.document).isLE := by
    simpa [View.compareChanges, left, right] using below
  rcases Ordering.isLE_iff_eq_lt_or_eq_eq.mp compared with lt | eq
  · exact lt
  · exact absurd (Keyed.Orders.same_key first.document second.document eq) different

end Sorting

/-- Everything of a view but its documents and its sync state is for the server. -/
structure SameDocuments (before after : View query) : Prop where
  documentSet : after.documentSet = before.documentSet
  mutatedKeys : after.mutatedKeys = before.mutatedKeys
  syncState : after.syncState = before.syncState

theorem applyTargetChange_same {view after : View query} {targetChange : Option (TargetChange κ)}
    (applied : view.applyTargetChange targetChange = some after) : SameDocuments view after := by
  cases targetChange with
  | none => cases applied; exact ⟨rfl, rfl, rfl⟩
  | some change =>
    simp only [View.applyTargetChange] at applied
    split at applied
    next => cases applied; exact ⟨rfl, rfl, rfl⟩
    next => cases applied

theorem updateLimboDocuments_same (view : View query) : SameDocuments view view.updateLimboDocuments.1 := by
  unfold View.updateLimboDocuments
  split
  next => exact ⟨rfl, rfl, rfl⟩
  next => exact ⟨rfl, rfl, rfl⟩

structure Raised (before after : View query) (snapshot : ViewSnapshot query) : Prop where
  faithful : Faithful snapshot
  documents : snapshot.documents = after.documentSet
  oldDocuments : snapshot.oldDocuments = before.documentSet
  mutatedKeys : snapshot.mutatedKeys = after.mutatedKeys
  fromCache : snapshot.fromCache = decide (after.syncState = .local)
  news : snapshot.documentChanges ≠ [] ∨ snapshot.syncStateChanged
  complete : snapshot.excludesMetadataChanges = false

structure Emitted (before after : View query) (viewChange : ViewChange query) : Prop where
  tracked : Tracked after.documentSet after.mutatedKeys
  quiet : viewChange.snapshot = none → after.documentSet = before.documentSet ∧ after.syncState = before.syncState
  raised : ∀ snapshot, viewChange.snapshot = some snapshot → Raised before after snapshot

theorem Emitted.refl {view : View query} (tracked : Tracked view.documentSet view.mutatedKeys)
    (limboChanges : List (LimboDocumentChange κ)) : Emitted view view ⟨none, limboChanges⟩ :=
  ⟨tracked, fun _ => ⟨rfl, rfl⟩, by rintro snapshot ⟨⟩⟩

variable [Std.TransOrd ν]

theorem faithful_of_difference {snapshot : ViewSnapshot query} {changes : DocumentViewChangeSet κ δ}
    (difference : Difference snapshot.oldDocuments snapshot.documents changes)
    (sorted : snapshot.documentChanges = View.sortChanges query changes.getChanges) : Faithful snapshot := by
  have distinct := DocumentViewChangeSet.getChanges_keys difference.filed
  have listed : ∀ change, change ∈ snapshot.documentChanges ↔ changes.find change.document.key = some change := by
    intro change
    rw [sorted, (perm_sortChanges changes.getChanges).mem_iff, DocumentViewChangeSet.mem_getChanges difference.filed]
  refine ⟨?_, ?_, ?_, ?_⟩
  · rw [sorted, ((perm_sortChanges changes.getChanges).map _).nodup_iff]
    exact distinct
  · rw [sorted]
    exact sorted_sortChanges distinct
  · intro change member
    have turns := difference.turns change.document.key
    rw [(listed change).mp member] at turns
    exact turns
  · intro key absent
    have turns := difference.turns key
    cases found : changes.find key with
    | none =>
      rw [found] at turns
      exact congrArg (Option.map Document.content) turns
    | some change =>
      have own := difference.filed key change found
      exact absurd (List.mem_map.mpr ⟨change, (listed change).mpr (own.symm ▸ found), own⟩) absent

theorem snapshotTo_emitted {view after : View query} {changes : DocumentViewChangeSet κ δ}
    (limboChanges : List (LimboDocumentChange κ)) (difference : Difference view.documentSet after.documentSet changes)
    (tracked : Tracked after.documentSet after.mutatedKeys) :
    Emitted view after ⟨view.snapshotTo after (View.sortChanges query changes.getChanges), limboChanges⟩ := by
  have permuted := @perm_sortChanges _ _ _ _ _ query changes.getChanges
  refine ⟨tracked, ?_, ?_⟩
  · intro quiet
    simp only [View.snapshotTo] at quiet
    split at quiet
    next same =>
      obtain ⟨empty, state⟩ := (Bool.and_eq_true _ _).mp same
      rw [List.isEmpty_iff] at empty
      rw [empty] at permuted
      refine ⟨difference.eq_of_nil permuted.nil_eq.symm, ?_⟩
      simpa using state
    next => cases quiet
  · intro snapshot raised
    simp only [View.snapshotTo] at raised
    split at raised
    next => cases raised
    next news =>
      cases raised
      refine ⟨faithful_of_difference difference rfl, rfl, rfl, rfl, rfl, ?_, rfl⟩
      by_contra none
      obtain ⟨empty, state⟩ := not_or.mp none
      exact news (by simpa using ⟨not_not.mp empty, by simpa using state⟩)

theorem applyChanges_emitted {view after : View query} {docChanges : ViewDocumentChanges query}
    {targetChange : Option (TargetChange κ)} {viewChange : ViewChange query}
    (difference : Difference view.documentSet docChanges.documentSet docChanges.changeSet)
    (tracked : Tracked docChanges.documentSet docChanges.mutatedKeys)
    (applied : view.applyChanges docChanges targetChange = some (after, viewChange)) :
    Emitted view after viewChange ∧ after.documentSet = docChanges.documentSet := by
  simp only [View.applyChanges] at applied
  split at applied
  next => cases applied
  next full =>
    obtain ⟨targeted, target, outcome⟩ := Option.map_eq_some_iff.mp applied
    obtain ⟨documents, keys, _⟩ := applyTargetChange_same target
    obtain ⟨sameDocuments, sameKeys, _⟩ := updateLimboDocuments_same targeted
    obtain ⟨rfl, rfl⟩ := Prod.mk.inj outcome
    have installed : targeted.updateLimboDocuments.1.documentSet = docChanges.documentSet := sameDocuments.trans documents
    have mutated : targeted.updateLimboDocuments.1.mutatedKeys = docChanges.mutatedKeys := sameKeys.trans keys
    rw [← installed] at difference tracked
    rw [← mutated] at tracked
    exact ⟨snapshotTo_emitted _ difference tracked, installed⟩

/-- Going offline takes nothing out of limbo and nothing into it. -/
theorem applyOnlineStateChange_emitted {view : View query} (tracked : Tracked view.documentSet view.mutatedKeys)
    (onlineState : OnlineState) :
    ∃ after viewChange, view.applyOnlineStateChange onlineState = some (after, viewChange) ∧ Emitted view after viewChange ∧
      after.documentSet = view.documentSet ∧ viewChange.limboChanges = [] := by
  unfold View.applyOnlineStateChange
  split
  next =>
    let offline : View query := { view with current := false }
    let after : View query := { offline with syncState := offline.newSyncState }
    refine ⟨after, ⟨offline.snapshotTo after (View.sortChanges query DocumentViewChangeSet.empty.getChanges), []⟩, rfl, ?_, rfl, rfl⟩
    have emitted : Emitted offline after ⟨offline.snapshotTo after _, []⟩ :=
      snapshotTo_emitted [] (Difference.refl view.documentSet) tracked
    refine ⟨tracked, emitted.quiet, ?_⟩
    intro snapshot found
    obtain ⟨faithful, documents, oldDocuments, mutatedKeys, fromCache, news, complete⟩ := emitted.raised snapshot found
    exact ⟨faithful, documents, oldDocuments, mutatedKeys, fromCache, news, complete⟩
  next => exact ⟨view, ⟨none, []⟩, rfl, Emitted.refl tracked [], rfl, rfl⟩

variable [DecidableEq δ]

/-- An emission applies changes that were computed from its batch, or from the
batch and then the refill. -/
theorem emit_computed {view after : View query} {changes refill : MaybeDocumentMap κ δ} {targetChange : Option (TargetChange κ)}
    {viewChange : ViewChange query} (tracked : Tracked view.documentSet view.mutatedKeys)
    (emitted : view.emit changes refill targetChange = some (after, viewChange)) :
    ∃ first final, Computed view (view.start none) changes first ∧ view.applyChanges final targetChange = some (after, viewChange) ∧
      (final = first ∨ first.needsRefill ∧ Computed view (view.start (some first)) refill final) := by
  obtain ⟨first, computed, ran⟩ := computeDocumentChanges_first tracked changes
  simp only [View.emit, ran, Option.bind_some] at emitted
  obtain ⟨final, chosen, applied⟩ := Option.bind_eq_some_iff.mp emitted
  refine ⟨first, final, computed, applied, ?_⟩
  split at chosen
  next needs =>
    obtain ⟨second, again, rerun⟩ := @computeDocumentChanges_computed _ _ _ query _ _ _ _ view (some first)
      computed.difference computed.tracked refill
    rw [rerun] at chosen
    split at chosen
    next => cases chosen
    next => cases chosen; exact Or.inr ⟨needs, again⟩
  next => cases chosen; exact Or.inl rfl

theorem emit_emitted {view after : View query} {changes refill : MaybeDocumentMap κ δ} {targetChange : Option (TargetChange κ)}
    {viewChange : ViewChange query} (tracked : Tracked view.documentSet view.mutatedKeys)
    (emitted : view.emit changes refill targetChange = some (after, viewChange)) : Emitted view after viewChange := by
  obtain ⟨first, final, computed, applied, same | ⟨_, again⟩⟩ := emit_computed tracked emitted
  · subst same
    exact (applyChanges_emitted computed.difference computed.tracked applied).1
  · exact (applyChanges_emitted again.difference again.tracked applied).1

theorem emit_holding {view after : View query} {changes refill : MaybeDocumentMap κ δ} {targetChange : Option (TargetChange κ)}
    {viewChange : ViewChange query} {holds : Document κ δ → Prop} (tracked : Tracked view.documentSet view.mutatedKeys)
    (holding : Holding holds view.documentSet) (batch : Offered query holds changes) (refilled : Offered query holds refill)
    (emitted : view.emit changes refill targetChange = some (after, viewChange)) : Holding holds after.documentSet := by
  obtain ⟨first, final, computed, applied, same | ⟨_, again⟩⟩ := emit_computed tracked emitted
  · subst same
    rw [(applyChanges_emitted computed.difference computed.tracked applied).2]
    exact computed.holding holding batch
  · rw [(applyChanges_emitted again.difference again.tracked applied).2]
    exact again.holding (computed.holding holding batch) refilled

theorem initializeView_raised {view : View query} {documents : MaybeDocumentMap κ δ} {remoteKeys : Finset κ}
    {synthesizedCurrentChange : Option (TargetChange κ)} {snapshot : ViewSnapshot query}
    (opened : initializeView query documents remoteKeys synthesizedCurrentChange = some (view, snapshot)) :
    Raised (View.init query remoteKeys) view snapshot ∧ Tracked view.documentSet view.mutatedKeys ∧
      ∀ holds, Offered query holds documents → Holding holds view.documentSet := by
  have tracked : Tracked (View.init query remoteKeys).documentSet (View.init query remoteKeys).mutatedKeys := by
    intro key
    simp [View.init, Keyed.Sorted.empty, Keyed.Items.empty, Keyed.Items.find]
  obtain ⟨computed, exactly, ran⟩ := computeDocumentChanges_first tracked documents
  simp only [initializeView, ran, Option.bind_some] at opened
  obtain ⟨⟨after, viewChange⟩, applied, shown⟩ := Option.bind_eq_some_iff.mp opened
  obtain ⟨emitted, installed⟩ := applyChanges_emitted exactly.difference exactly.tracked applied
  obtain ⟨raised, found, same⟩ := Option.map_eq_some_iff.mp shown
  obtain ⟨rfl, rfl⟩ := Prod.mk.inj same
  refine ⟨emitted.raised raised found, emitted.tracked, ?_⟩
  intro holds offered
  rw [installed]
  exact exactly.holding (fun _ member => absurd member (List.not_mem_nil)) offered

end FireChat.Core.Proofs
