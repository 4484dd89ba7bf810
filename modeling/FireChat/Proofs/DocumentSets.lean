import FireChat.Core.DocumentSet
import FireChat.Proofs.SortedMaps

/-! A stored document set is the sorted list of documents that the views work on: its
index and its tree never drift apart, whatever is put in and taken out. -/

namespace FireChat.Core.Proofs

theorem map_filter_fst {κ ν : Type} {entries : List (κ × ν)} (keep : κ → Bool) :
    (entries.filter fun entry => keep entry.1).map Prod.fst = (entries.map Prod.fst).filter keep := by
  rw [List.filter_map]
  rfl

theorem findIdx?_congr {α : Type} {items : List α} {first second : α → Bool} (same : ∀ item ∈ items, first item = second item) :
    items.findIdx? first = items.findIdx? second := by
  induction items with
  | nil => rfl
  | cons item items ih =>
    rw [List.findIdx?_cons, List.findIdx?_cons, same item List.mem_cons_self,
      ih fun other member => same other (List.mem_cons_of_mem _ member)]

variable {κ δ ν : Type} [LinearOrder κ] [Ord ν] {query : Query κ δ ν} {set : StoredDocumentSet κ δ}
  {items : DocumentSet query} {document : Document κ δ} {key : κ}

/-- What a stored set has under a key is what the list has, and its tree goes through
the documents as the list does. -/
structure Stores (query : Query κ δ ν) (set : StoredDocumentSet κ δ) (items : DocumentSet query) : Prop where
  index : Valid compare set.index
  sortedSet : Valid query.comparator set.sortedSet
  keyed : ∀ key, set.getDocument key = items.find key
  documents : (listed set.sortedSet).map Prod.fst = items.list

theorem stores_empty : Stores query StoredDocumentSet.empty Keyed.Sorted.empty :=
  ⟨valid_empty, valid_empty, fun _ => rfl, rfl⟩

section Reads

theorem Stores.containsKey (stores : Stores query set items) (key : κ) : set.containsKey key = (items.find key).isSome := by
  rw [← stores.keyed key]
  exact Option.isSome_map.symm

theorem Stores.size (stores : Stores query set items) : set.size = items.list.length := by
  have counted : set.index.size = (listed set.index).length := size_length stores.index
  have ascending := stores.index.ascending
  have indexed : ((listed set.index).map Prod.fst).Nodup := by
    apply List.pairwise_map.mpr
    apply ascending.imp
    intro low high below same
    have level : compare high.1 high.1 = .eq := Std.ReflCmp.compare_self
    rw [same] at below
    cases level.symm.trans below
  have same : ∀ key, key ∈ (listed set.index).map Prod.fst ↔ key ∈ items.list.map Document.key := by
    intro key
    have held : (set.index.find compare key).isSome ↔ (items.find key).isSome := by
      rw [← stores.keyed key]
      exact (Option.isSome_map ▸ Iff.rfl)
    refine ⟨?_, ?_⟩
    · intro member
      obtain ⟨entry, listed, rfl⟩ := List.mem_map.mp member
      have found := stores.index.held_eq_some.mpr ⟨listed, Std.ReflCmp.compare_self⟩
      obtain ⟨document, known⟩ := Option.isSome_iff_exists.mp (held.mp (found ▸ rfl))
      obtain ⟨inside, keyed⟩ := Keyed.Items.find_eq_some.mp known
      exact List.mem_map.mpr ⟨document, inside, keyed⟩
    · intro member
      obtain ⟨document, inside, rfl⟩ := List.mem_map.mp member
      obtain ⟨entry, found⟩ := Option.isSome_iff_exists.mp (held.mpr (Keyed.Items.find_eq_some.mpr ⟨inside, rfl⟩ ▸ rfl))
      obtain ⟨listed, level⟩ := stores.index.held_eq_some.mp found
      exact List.mem_map.mpr ⟨entry, listed, (Std.LawfulEqOrd.eq_of_compare level).symm⟩
  have lengths := ((List.perm_ext_iff_of_nodup indexed items.distinct).mpr same).length_eq
  rw [List.length_map, List.length_map] at lengths
  exact counted.trans lengths

theorem Stores.first (stores : Stores query set items) : set.getFirstDocument = items.list.head? := by
  rw [StoredDocumentSet.getFirstDocument, min?_head? stores.sortedSet, ← stores.documents, List.head?_map]

theorem Stores.last (stores : Stores query set items) : set.getLastDocument = items.list.getLast? := by
  rw [StoredDocumentSet.getLastDocument, max?_getLast? stores.sortedSet, ← stores.documents, List.getLast?_map]

end Reads

variable [Std.TransOrd ν]

theorem level_iff {other : Document κ δ} (member : document ∈ items.list) (inside : other ∈ items.list) :
    query.comparator document other = .eq ↔ other.key = document.key := by
  refine ⟨fun level => (Keyed.Orders.same_key document other level).symm, ?_⟩
  intro same
  have equal := List.inj_on_of_nodup_map items.distinct inside member same
  subst equal
  exact Std.ReflCmp.compare_self

theorem Stores.erase (stores : Stores query set items) (key : κ) :
    ∃ next, set.erase query key = some next ∧ Stores query next (items.erase key) := by
  unfold StoredDocumentSet.erase
  cases held : set.getDocument key with
  | none =>
    have missing := (stores.keyed key).symm.trans held
    have whole : items.erase key = items := by
      apply Keyed.Sorted.ext_find
      intro target
      rw [Keyed.Sorted.find_erase]
      split
      next same => rw [← same, missing]
      next => rfl
    rw [whole]
    exact ⟨set, rfl, stores⟩
  | some doc =>
    obtain ⟨member, keyed⟩ := Keyed.Items.find_eq_some.mp ((stores.keyed key).symm.trans held)
    subst keyed
    obtain ⟨index, erasedIndex, validIndex, without⟩ := erase_without stores.index doc.key
    obtain ⟨sortedSet, erasedSet, validSet, listedSet⟩ := erase_without stores.sortedSet doc
    refine ⟨⟨index, sortedSet⟩, by simp only [erasedIndex, erasedSet]; rfl, validIndex, validSet, ?_, ?_⟩
    · intro target
      have found := get_without stores.index validIndex without target
      rw [Keyed.Sorted.find_erase, ← stores.keyed target]
      refine found.trans ?_
      simp only [Std.LawfulEqOrd.compare_eq_iff_eq]
      rfl
    · change (listed sortedSet).map Prod.fst = _
      rw [listedSet, (stores.sortedSet.ascending.divides doc).without_eq_filter]
      refine (map_filter_fst fun other => query.comparator doc other ≠ .eq).trans ?_
      rw [stores.documents]
      apply List.filter_congr
      intro other inside
      rw [decide_eq_decide]
      exact not_congr (level_iff member inside)

theorem Stores.indexOf (stores : Stores query set items) (key : κ) : set.indexOf query key = items.indexOf key := by
  rw [StoredDocumentSet.indexOf, stores.keyed key]
  cases held : items.find key with
  | none =>
    have none : ¬(items.indexOf key).isSome := by
      rw [Keyed.Sorted.indexOf_isSome, held]
      exact Bool.false_ne_true
    exact (Option.not_isSome_iff_eq_none.mp none).symm
  | some document =>
    obtain ⟨member, keyed⟩ := Keyed.Items.find_eq_some.mp held
    subst keyed
    rw [Option.bind_some, findIndex_held stores.sortedSet, Keyed.Sorted.indexOf, ← stores.documents, List.findIdx?_map]
    apply findIdx?_congr
    intro entry inside
    apply decide_eq_decide.mpr
    exact level_iff member (stores.documents ▸ List.mem_map_of_mem inside)

variable [DecidableEq δ]

theorem Stores.insert (stores : Stores query set items) (document : Document κ δ) :
    ∃ next, set.insert query document = some next ∧ Stores query next (items.insert document) := by
  obtain ⟨removed, erased, kept⟩ := stores.erase document.key
  obtain ⟨index, insertedIndex, validIndex, placedIndex⟩ := insert_placed kept.index document.key document
  obtain ⟨sortedSet, insertedSet, validSet, placedSet⟩ := insert_placed kept.sortedSet document ()
  refine ⟨⟨index, sortedSet⟩, by simp only [StoredDocumentSet.insert, erased, Option.bind_some, insertedIndex, insertedSet]; rfl,
    validIndex, validSet, ?_, ?_⟩
  · intro target
    have found := get_placed kept.index validIndex placedIndex target
    have before := kept.keyed target
    rw [Keyed.Sorted.find_erase] at before
    rw [Keyed.Sorted.find_insert]
    refine found.trans ?_
    simp only [Std.LawfulEqOrd.compare_eq_iff_eq]
    split
    next => rfl
    next different =>
      rw [if_neg different] at before
      exact before
  · change (listed sortedSet).map Prod.fst = Keyed.Sorted.place query.comparator document (items.erase document.key).list
    have apart : ∀ other ∈ (items.erase document.key).list, query.comparator document other ≠ .eq := by
      intro other member level
      exact (Keyed.Sorted.mem_erase.mp member).2 (Keyed.Orders.same_key document other level).symm
    have divides : Cut.Divides (query.comparator document) (items.erase document.key).list := by
      apply (items.erase document.key).sorted.imp
      intro first second below reaches
      exact Std.TransCmp.lt_of_isLE_of_lt (Ordering.isLE_iff_ne_gt.mpr reaches) below
    obtain ⟨own, _, absent, entered⟩ := placedSet
    have none : Cut.held (against query.comparator document) (listed removed.sortedSet) = none := by
      apply Cut.held_eq_none
      intro entry member
      exact apart entry.1 (kept.documents ▸ List.mem_map_of_mem member)
    rw [entered, absent none, Keyed.Sorted.place_eq_cut divides apart, ← kept.documents, List.map_append, List.map_cons]
    exact congrArg₂ (fun front back => front ++ document :: back)
      (map_filter_fst fun other => query.comparator document other = .gt) (map_filter_fst fun other => query.comparator document other = .lt)

inductive DocumentSetEdit (κ δ : Type) where
  | insert (document : Document κ δ)
  | erase (key : κ)

def DocumentSetEdit.applyTo (query : Query κ δ ν) (set : StoredDocumentSet κ δ) : DocumentSetEdit κ δ → Option (StoredDocumentSet κ δ)
  | .insert document => set.insert query document
  | .erase key => set.erase query key

def DocumentSetEdit.edited (items : DocumentSet query) : DocumentSetEdit κ δ → DocumentSet query
  | .insert document => items.insert document
  | .erase key => items.erase key

/-- However a stored set came about, it never failed an assertion, and every question to
it has the answer of the sorted list that was edited alike. -/
theorem document_set_is_sorted_list (query : Query κ δ ν) (edits : List (DocumentSetEdit κ δ)) :
    ∃ (set : StoredDocumentSet κ δ) (items : DocumentSet query),
      Transition.run (DocumentSetEdit.applyTo query) StoredDocumentSet.empty edits = some set ∧
      items = edits.foldl DocumentSetEdit.edited Keyed.Sorted.empty ∧
      (listed set.sortedSet).map Prod.fst = items.list ∧ set.size = items.list.length ∧
      (∀ key, set.getDocument key = items.find key ∧ set.containsKey key = (items.find key).isSome ∧
        set.indexOf query key = items.indexOf key) ∧
      set.getFirstDocument = items.list.head? ∧ set.getLastDocument = items.list.getLast? := by
  suffices stored : ∃ set : StoredDocumentSet κ δ,
      Transition.run (DocumentSetEdit.applyTo query) StoredDocumentSet.empty edits = some set ∧
      Stores query set (edits.foldl DocumentSetEdit.edited Keyed.Sorted.empty) by
    obtain ⟨set, ran, stores⟩ := stored
    exact ⟨set, _, ran, rfl, stores.documents, stores.size, fun key => ⟨stores.keyed key, stores.containsKey key, stores.indexOf key⟩,
      stores.first, stores.last⟩
  induction edits using List.reverseRecOn with
  | nil => exact ⟨StoredDocumentSet.empty, rfl, stores_empty⟩
  | append_singleton past edit ih =>
    obtain ⟨set, ran, stores⟩ := ih
    rw [List.foldl_append]
    cases edit with
    | insert document =>
      obtain ⟨next, inserted, stores⟩ := stores.insert document
      exact ⟨next, Transition.run_concat.mpr ⟨set, ran, inserted⟩, stores⟩
    | erase key =>
      obtain ⟨next, erased, stores⟩ := stores.erase key
      exact ⟨next, Transition.run_concat.mpr ⟨set, ran, erased⟩, stores⟩

def newestFirst : Query Nat Nat Nat := ⟨fun _ => true, [], [⟨.field some, .descending⟩], .none, Target.kNoLimit, none, none⟩

def moved : List (DocumentSetEdit Nat Nat) :=
  [.insert ⟨1, 9, ⟨1, 0⟩, .synced⟩, .insert ⟨2, 6, ⟨1, 0⟩, .synced⟩, .insert ⟨1, 3, ⟨2, 0⟩, .synced⟩]

theorem moved_document_set_is_sorted_list :
    ∃ (set : StoredDocumentSet Nat Nat) (items : DocumentSet newestFirst),
      Transition.run (DocumentSetEdit.applyTo newestFirst) StoredDocumentSet.empty moved = some set ∧
      items = moved.foldl DocumentSetEdit.edited Keyed.Sorted.empty ∧
      (listed set.sortedSet).map Prod.fst = items.list ∧ set.size = items.list.length ∧
      (∀ key, set.getDocument key = items.find key ∧ set.containsKey key = (items.find key).isSome ∧
        set.indexOf newestFirst key = items.indexOf key) ∧
      set.getFirstDocument = items.list.head? ∧ set.getLastDocument = items.list.getLast? :=
  document_set_is_sorted_list newestFirst moved

end FireChat.Core.Proofs
