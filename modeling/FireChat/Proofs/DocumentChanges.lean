import FireChat.Core.Listener
import FireChat.Proofs.Views

/-! The indexed document changes of a snapshot. Applied one after another at
their indices to what the app saw before, they give what it is to see now. -/

namespace FireChat.Core.Proofs

variable {κ δ ν : Type}

theorem content_key (document : Document κ δ) : document.content.1 = document.key := rfl

variable [LinearOrder κ] [Ord ν] {query : Query κ δ ν}

/-- What the app sees of a document set: keys and data, in order. -/
def contents (documents : DocumentSet query) : Keyed.Items (Prod.fst : κ × δ → κ) :=
  documents.toItems.map Document.content content_key

theorem find_contents (documents : DocumentSet query) (key : κ) :
    (contents documents).find key = (documents.find key).map Document.content :=
  Keyed.Items.find_map Document.content content_key documents.toItems key

/-- A snapshot whose changes lead from its old documents to its new ones. Documents
that no change names may differ in what the app does not see. -/
structure Faithful (snapshot : ViewSnapshot query) : Prop where
  distinct : (snapshot.documentChanges.map fun change => change.document.key).Nodup
  sorted : snapshot.documentChanges.Pairwise fun first second =>
    first.type = .added → second.type = .added → query.comparator first.document second.document = .lt
  changed : ∀ change ∈ snapshot.documentChanges, Turns (snapshot.oldDocuments.find change.document.key)
    (snapshot.documents.find change.document.key) (some change)
  unchanged : ∀ key, key ∉ snapshot.documentChanges.map (fun change => change.document.key) →
    (snapshot.documents.find key).map Document.content = (snapshot.oldDocuments.find key).map Document.content

theorem forEachAdded_spec {snapshot : ViewSnapshot query} {changes : List (DocumentViewChange κ δ)}
    {shown final : Keyed.Items (Prod.fst : κ × δ → κ)} {lastDocument : Option (Document κ δ)}
    (added : ∀ change ∈ changes, change.type = .added)
    (sorted : changes.Pairwise fun first second => query.comparator first.document second.document = .lt)
    (after : ∀ last, lastDocument = some last → ∀ change ∈ changes, query.comparator last change.document = .lt)
    (list : final.list = shown.list ++ changes.map fun change => change.document.content) :
    ∃ reported, snapshot.forEachAdded shown.list.length lastDocument changes = some reported ∧
      Transition.run Keyed.Items.apply shown (reported.map DocumentChange.shown) = some final := by
  induction changes generalizing shown lastDocument with
  | nil =>
    refine ⟨[], rfl, congrArg some (Keyed.Items.ext_list ?_)⟩
    simpa using list.symm
  | cons change changes ih =>
    obtain ⟨below, sorted⟩ := List.pairwise_cons.mp sorted
    have distinct := final.distinct
    rw [list, List.map_cons, List.append_cons] at distinct
    have front := distinct.sublist ((List.sublist_append_left _ _).map Prod.fst)
    let grown : Keyed.Items (Prod.fst : κ × δ → κ) := ⟨shown.list ++ [change.document.content], front⟩
    have fresh : change.document.key ∉ shown.list.map Prod.fst := by
      rw [List.map_append, List.nodup_append] at front
      exact fun member => front.2.2 change.document.key member change.document.key (by simp [Document.content]) rfl
    have applied : shown.apply ⟨.added, change.document.content, nsNotFound, shown.list.length⟩ = some grown := by
      unfold Keyed.Items.apply Keyed.Items.insert
      rw [dif_pos ⟨Nat.le_refl _, fresh⟩]
      exact congrArg some (Keyed.Items.ext_list List.insertIdx_length_self)
    obtain ⟨reported, ran, rest⟩ := @ih grown (some change.document) (fun other member => added other (by simp [member])) sorted
      (by rintro last ⟨⟩; exact below) (by simp [grown, list])
    refine ⟨⟨.added, snapshot.documentSnapshot change.document, none, some shown.list.length⟩ :: reported, ?_, ?_⟩
    · have inOrder : lastDocument.all fun last => query.comparator last change.document = .lt := by
        cases last : lastDocument with
        | none => rfl
        | some last' => simpa using after last' last change (by simp)
      rw [ViewSnapshot.forEachAdded, if_pos ⟨added change (by simp), inOrder⟩]
      simp only [grown, List.length_append, List.length_singleton] at ran
      rw [ran, Option.map_some]
    · exact Transition.run_cons.mpr ⟨grown, applied, rest⟩

theorem Faithful.change_key {snapshot : ViewSnapshot query} (faithful : Faithful snapshot) {change : DocumentViewChange κ δ}
    (member : change ∈ snapshot.documentChanges) :
    ∃ document, (document ∈ snapshot.oldDocuments.list ∨ document ∈ snapshot.documents.list) ∧
      document.key = change.document.key := by
  have turns := faithful.changed change member
  cases old : snapshot.oldDocuments.find change.document.key with
  | some document =>
    have held := Keyed.Items.find_eq_some.mp old
    exact ⟨document, Or.inl held.1, held.2⟩
  | none =>
    have added := turns.before.mpr old
    have entered := turns.after
    rw [leaves, if_neg (by simp [added])] at entered
    exact ⟨change.document, Or.inr (Keyed.Items.find_eq_some.mp entered).1, rfl⟩

theorem forEachAdded_documents {snapshot : ViewSnapshot query} {changes : List (DocumentViewChange κ δ)} {index : Nat}
    {lastDocument : Option (Document κ δ)} {reported : List (DocumentChange κ δ)}
    (ran : snapshot.forEachAdded index lastDocument changes = some reported) :
    ∀ documentChange ∈ reported, ∃ change ∈ changes, documentChange.document.document = change.document ∧
      documentChange.type = documentChangeTypeForChange change.type := by
  induction changes generalizing index lastDocument reported with
  | nil =>
    cases ran
    simp
  | cons change changes ih =>
    unfold ViewSnapshot.forEachAdded at ran
    split at ran
    next fits =>
      obtain ⟨rest, added, rfl⟩ := Option.map_eq_some_iff.mp ran
      intro documentChange member
      rcases List.mem_cons.mp member with rfl | member
      · exact ⟨change, by simp, rfl, by rw [fits.1]; rfl⟩
      · obtain ⟨other, inside, same⟩ := ih added documentChange member
        exact ⟨other, by simp [inside], same⟩
    next => cases ran

variable [Std.TransOrd ν]

theorem contents_eq {first second : DocumentSet query}
    (same : ∀ key, (first.find key).map Document.content = (second.find key).map Document.content) :
    contents first = contents second := by
  apply Keyed.Items.ext_list
  exact Keyed.Sorted.map_list_eq content_key (fun _ _ _ _ left right => query.comparator_congr left right) same

/-- A change that fits the index tracker is reported at indices that apply it to the tracker. -/
theorem trackChange_spec {snapshot : ViewSnapshot query} {indexTracker : DocumentSet query} {change : DocumentViewChange κ δ}
    (fits : change.type = .added ↔ indexTracker.find change.document.key = none) :
    ∃ documentChange next, snapshot.trackChange indexTracker change = some (documentChange, next) ∧
      (contents indexTracker).apply documentChange.shown = some (contents next) ∧
      ∀ key, next.find key = if change.document.key = key then leaves change else indexTracker.find key := by
  have reads : ∀ (documents : DocumentSet query) (changes : Keyed.Change (Document κ δ)) (next : DocumentSet query),
      documents.toItems.apply changes = some next.toItems →
      (contents documents).apply (changes.map Document.content) = some (contents next) := by
    intro documents change next applied
    rw [contents, Keyed.Items.map_apply, applied]
    rfl
  have removes : change.type ≠ .added → ∃ oldIndex, indexTracker.indexOf change.document.key = some oldIndex ∧
      indexTracker.toItems.remove oldIndex change.document.key = some (indexTracker.erase change.document.key).toItems := by
    intro kept
    have held := Option.ne_none_iff_isSome.mp (mt fits.mpr kept)
    obtain ⟨oldIndex, found⟩ := Option.isSome_iff_exists.mp (Keyed.Sorted.indexOf_isSome.mpr held)
    exact ⟨oldIndex, found, Keyed.Sorted.remove_indexOf found⟩
  have enters : ∀ tracker : DocumentSet query, tracker.find change.document.key = none →
      ∃ newIndex, (tracker.insert change.document).indexOf change.document.key = some newIndex ∧
        tracker.toItems.insert newIndex change.document = some (tracker.insert change.document).toItems :=
    fun tracker missing => Keyed.Sorted.insert_indexOf (Keyed.Sorted.absent_of_find missing)
  have cleared : (indexTracker.erase change.document.key).find change.document.key = none := by
    rw [Keyed.Sorted.find_erase, if_pos rfl]
  have replaces : change.type ≠ .added → change.type ≠ .removed → documentChangeTypeForChange change.type = .modified →
      ∃ documentChange next, snapshot.trackChange indexTracker change = some (documentChange, next) ∧
        (contents indexTracker).apply documentChange.shown = some (contents next) ∧
        ∀ key, next.find key = if change.document.key = key then leaves change else indexTracker.find key := by
    intro old kept type
    obtain ⟨oldIndex, left, removed⟩ := removes old
    obtain ⟨newIndex, found, inserted⟩ := enters (indexTracker.erase change.document.key) cleared
    refine ⟨⟨.modified, snapshot.documentSnapshot change.document, some oldIndex, some newIndex⟩,
      (indexTracker.erase change.document.key).insert change.document, ?_, ?_, ?_⟩
    · simp [ViewSnapshot.trackChange, old, kept, type, left, found]
    · refine reads indexTracker ⟨.modified, change.document, oldIndex, newIndex⟩ _ ?_
      simp only [Keyed.Items.apply, removed, Option.bind_some, inserted]
    · intro key
      rw [Keyed.Sorted.find_insert, Keyed.Sorted.find_erase, leaves, if_neg kept]
      split
      · rfl
      · rfl
  cases type : change.type with
  | added =>
    obtain ⟨newIndex, found, inserted⟩ := enters indexTracker (fits.mp type)
    refine ⟨_, indexTracker.insert change.document, by simp [ViewSnapshot.trackChange, type, found]; rfl, ?_, ?_⟩
    · exact reads indexTracker ⟨.added, change.document, nsNotFound, newIndex⟩ _ inserted
    · intro key
      simp [Keyed.Sorted.find_insert, leaves, type]
  | removed =>
    obtain ⟨oldIndex, found, removed⟩ := removes (by simp [type])
    refine ⟨_, indexTracker.erase change.document.key, by simp [ViewSnapshot.trackChange, type, found]; rfl, ?_, ?_⟩
    · exact reads indexTracker ⟨.removed, change.document, oldIndex, nsNotFound⟩ _ removed
    · intro key
      simp [Keyed.Sorted.find_erase, leaves, type]
  | modified => exact replaces (by simp [type]) (by simp [type]) (by rw [type]; rfl)
  | metadata => exact replaces (by simp [type]) (by simp [type]) (by rw [type]; rfl)

/-- The changes that the app is handed are applied in order; metadata changes may be left out. -/
theorem forEachTracked_spec {snapshot : ViewSnapshot query} {includeMetadataChanges : Bool}
    {changes : List (DocumentViewChange κ δ)} {indexTracker : DocumentSet query}
    (distinct : (changes.map fun change => change.document.key).Nodup)
    (fits : ∀ change ∈ changes, change.type = .added ↔ indexTracker.find change.document.key = none) :
    ∃ reported, ∃ final : DocumentSet query,
      snapshot.forEachTracked includeMetadataChanges indexTracker changes = some reported ∧
      Transition.run Keyed.Items.apply (contents indexTracker) (reported.map DocumentChange.shown) = some (contents final) ∧
      (∀ change ∈ changes, final.find change.document.key =
        if !includeMetadataChanges && change.type = .metadata then indexTracker.find change.document.key else leaves change) ∧
      ∀ key, key ∉ changes.map (fun change => change.document.key) → final.find key = indexTracker.find key := by
  induction changes generalizing indexTracker with
  | nil => exact ⟨[], indexTracker, rfl, rfl, by simp, fun _ _ => rfl⟩
  | cons change changes ih =>
    obtain ⟨fresh, distinct⟩ := List.nodup_cons.mp distinct
    have others : ∀ other ∈ changes, other.document.key ≠ change.document.key :=
      fun other member same => fresh (List.mem_map.mpr ⟨other, member, same⟩)
    have later : ∀ other ∈ changes, other.type = .added ↔ indexTracker.find other.document.key = none :=
      fun other member => fits other (List.mem_cons_of_mem change member)
    by_cases skipped : !includeMetadataChanges && change.type = .metadata
    · obtain ⟨reported, final, ran, applied, changed, unchanged⟩ := ih distinct later
      refine ⟨reported, final, ?_, applied, ?_, ?_⟩
      · rw [ViewSnapshot.forEachTracked, if_pos skipped]
        exact ran
      · intro other member
        rcases List.mem_cons.mp member with rfl | member
        · rw [if_pos skipped]
          exact unchanged other.document.key fresh
        · exact changed other member
      · intro key absent
        exact unchanged key fun member => absent (List.mem_cons_of_mem _ member)
    · obtain ⟨documentChange, next, tracked, step, found⟩ := @trackChange_spec _ _ _ _ _ _ _ snapshot _ _ (fits change (by simp))
      obtain ⟨reported, final, ran, applied, changed, unchanged⟩ := @ih next distinct (by
        intro other member
        rw [found, if_neg (Ne.symm (others other member))]
        exact later other member)
      refine ⟨documentChange :: reported, final, ?_, ?_, ?_, ?_⟩
      · rw [ViewSnapshot.forEachTracked, if_neg skipped]
        simp only [tracked, Option.bind_some, ran, Option.map_some]
      · exact Transition.run_cons.mpr ⟨contents next, step, applied⟩
      · intro other member
        rcases List.mem_cons.mp member with rfl | member
        · rw [if_neg skipped, unchanged other.document.key fresh, found, if_pos rfl]
        · rw [changed other member, found, if_neg (Ne.symm (others other member))]
      · intro key absent
        obtain ⟨different, absent⟩ := not_or.mp (mt List.mem_cons.mpr absent)
        rw [unchanged key absent, found, if_neg (Ne.symm different)]

theorem Faithful.added_contents {snapshot : ViewSnapshot query} (faithful : Faithful snapshot)
    (first : snapshot.oldDocuments.list = []) :
    (∀ change ∈ snapshot.documentChanges, change.type = .added) ∧
      (contents snapshot.documents).list = snapshot.documentChanges.map fun change => change.document.content := by
  have nothing : ∀ key, snapshot.oldDocuments.find key = none := by simp [Keyed.Items.find, first]
  have added : ∀ change ∈ snapshot.documentChanges, change.type = .added :=
    fun change member => (faithful.changed change member).before.mpr (nothing change.document.key)
  let listed : DocumentSet query :=
    { list := snapshot.documentChanges.map DocumentViewChange.document
      distinct := by simpa [List.map_map, Function.comp_def] using faithful.distinct
      sorted := by
        refine List.pairwise_map.mpr (faithful.sorted.imp_of_mem ?_)
        intro change other left right below
        exact below (added change left) (added other right) }
  have same : contents snapshot.documents = contents listed := by
    apply contents_eq
    intro key
    by_cases named : key ∈ snapshot.documentChanges.map fun change => change.document.key
    · obtain ⟨change, member, rfl⟩ := List.mem_map.mp named
      have held : listed.find change.document.key = some change.document :=
        Keyed.Items.find_eq_some.mpr ⟨List.mem_map_of_mem member, rfl⟩
      rw [(faithful.changed change member).after, held, leaves, if_neg (by simp [added change member])]
    · have absent : listed.find key = none := by
        refine List.find?_eq_none.mpr ?_
        intro document member keyed
        obtain ⟨change, inside, rfl⟩ := List.mem_map.mp member
        exact named (List.mem_map.mpr ⟨change, inside, by simpa using keyed⟩)
      rw [faithful.unchanged key named, nothing, absent]
  refine ⟨added, ?_⟩
  rw [same]
  simp [contents, Keyed.Items.map, listed, Function.comp_def]

theorem forEachTracked_documents {snapshot : ViewSnapshot query} {includeMetadataChanges : Bool}
    {changes : List (DocumentViewChange κ δ)} {indexTracker : DocumentSet query} {reported : List (DocumentChange κ δ)}
    (ran : snapshot.forEachTracked includeMetadataChanges indexTracker changes = some reported) :
    ∀ documentChange ∈ reported, ∃ change ∈ changes, documentChange.document.document = change.document ∧
      documentChange.type = documentChangeTypeForChange change.type := by
  induction changes generalizing indexTracker reported with
  | nil =>
    cases ran
    simp
  | cons change changes ih =>
    unfold ViewSnapshot.forEachTracked at ran
    split at ran
    next =>
      intro documentChange member
      obtain ⟨other, inside, same⟩ := ih ran documentChange member
      exact ⟨other, by simp [inside], same⟩
    next =>
      obtain ⟨⟨tracked, next⟩, step, ran⟩ := Option.bind_eq_some_iff.mp ran
      obtain ⟨rest, told, rfl⟩ := Option.map_eq_some_iff.mp ran
      obtain ⟨left, _, same⟩ := Option.map_eq_some_iff.mp step
      intro documentChange member
      rcases List.mem_cons.mp member with rfl | member
      · refine ⟨change, by simp, ?_⟩
        simp only at same
        split at same
        next => cases same; exact ⟨rfl, rfl⟩
        next => cases same; exact ⟨rfl, rfl⟩
      · obtain ⟨other, inside, equal⟩ := ih told documentChange member
        exact ⟨other, by simp [inside], equal⟩

theorem forEachChange_documents {snapshot : ViewSnapshot query} {includeMetadataChanges : Bool}
    {reported : List (DocumentChange κ δ)} (ran : snapshot.forEachChange includeMetadataChanges = some reported) :
    ∀ documentChange ∈ reported, ∃ change ∈ snapshot.documentChanges, documentChange.document.document = change.document ∧
      documentChange.type = documentChangeTypeForChange change.type := by
  unfold ViewSnapshot.forEachChange at ran
  split at ran
  next => cases ran
  next =>
    split at ran
    next => exact forEachAdded_documents ran
    next => exact forEachTracked_documents ran

/-- `ForEachChange` never fails an assertion on a faithful snapshot, and the changes
it reports turn the contents of the old documents into those of the new ones. -/
theorem forEachChange_spec {snapshot : ViewSnapshot query} (faithful : Faithful snapshot) (includeMetadataChanges : Bool)
    (allowed : includeMetadataChanges → ¬snapshot.excludesMetadataChanges) :
    ∃ reported, snapshot.forEachChange includeMetadataChanges = some reported ∧
      Transition.run Keyed.Items.apply (contents snapshot.oldDocuments) (reported.map DocumentChange.shown) =
        some (contents snapshot.documents) := by
  have permitted : ¬(includeMetadataChanges && snapshot.excludesMetadataChanges) := by simpa using allowed
  unfold ViewSnapshot.forEachChange
  rw [if_neg permitted]
  cases old : snapshot.oldDocuments.list with
  | nil =>
    obtain ⟨added, list⟩ := faithful.added_contents old
    have empty : (contents snapshot.oldDocuments).list = [] := by simp [contents, Keyed.Items.map, old]
    have sorted := faithful.sorted.imp_of_mem fun left right below => below (added _ left) (added _ right)
    obtain ⟨reported, ran, applied⟩ := @forEachAdded_spec _ _ _ _ _ _ snapshot snapshot.documentChanges
      (contents snapshot.oldDocuments) (contents snapshot.documents) none added sorted (by simp) (by rw [empty, list]; rfl)
    rw [empty] at ran
    exact ⟨reported, ran, applied⟩
  | cons head tail =>
    obtain ⟨reported, final, ran, applied, changed, unchanged⟩ :=
      @forEachTracked_spec _ _ _ _ _ _ _ snapshot includeMetadataChanges snapshot.documentChanges snapshot.oldDocuments
        faithful.distinct fun change member => (faithful.changed change member).before
    refine ⟨reported, ran, ?_⟩
    rw [applied]
    refine congrArg some (contents_eq ?_)
    intro key
    by_cases named : key ∈ snapshot.documentChanges.map fun change => change.document.key
    · obtain ⟨change, member, rfl⟩ := List.mem_map.mp named
      rw [changed change member]
      split
      next skipped =>
        have metadata : change.type = .metadata := of_decide_eq_true ((Bool.and_eq_true _ _).mp skipped).2
        exact (faithful.changed change member).metadata_content metadata fun document held => find_key held
      next => rw [(faithful.changed change member).after]
    · rw [unchanged key named, faithful.unchanged key named]

end FireChat.Core.Proofs
