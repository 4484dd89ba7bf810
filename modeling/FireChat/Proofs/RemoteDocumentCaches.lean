import FireChat.Core.LocalStore
import FireChat.Core.RemoteDocumentCache
import FireChat.Proofs.SortedMaps
import Mathlib.Data.List.Lex
import Mathlib.Data.String.Basic

/-! The scan of a collection finds what a look at every document would: the keys below a
path follow each other, and the scan starts before the first and breaks after the last. -/

namespace FireChat.Core.Proofs

open ResourcePath MemoryRemoteDocumentCache

section Paths

variable {σ : Type} [LinearOrder σ]

instance : Std.TransCmp (@compareTo σ _) := inferInstanceAs (Std.TransCmp (List.compareLex compare))

instance : Std.LawfulEqCmp (@compareTo σ _) := inferInstanceAs (Std.LawfulEqCmp (List.compareLex compare))

variable {path key first second : ResourcePath σ}

theorem isPrefixOf_iff : path.isPrefixOf key = true ↔ path <+: key := by
  rw [ResourcePath.isPrefixOf, Bool.and_eq_true, decide_eq_true_eq, decide_eq_true_eq, List.prefix_iff_eq_take]
  refine ⟨fun both => both.2.symm, fun same => ⟨?_, same.symm⟩⟩
  rw [same, List.length_take]
  exact Nat.min_le_right _ _

theorem isImmediateParentOf_prefix (parent : path.isImmediateParentOf key = true) : path <+: key ∧ key ≠ path := by
  rw [isImmediateParentOf, Bool.and_eq_true, decide_eq_true_eq, decide_eq_true_eq] at parent
  obtain ⟨longer, same⟩ := parent
  refine ⟨List.prefix_iff_eq_take.mpr same.symm, ?_⟩
  rintro rfl
  omega

theorem compareTo_append (path first second : ResourcePath σ) :
    compareTo (path ++ first) (path ++ second) = compareTo first second := by
  induction path with
  | nil => rfl
  | cons segment path ih =>
    change List.compareLex compare (segment :: (path ++ first)) (segment :: (path ++ second)) = _
    rw [List.compareLex_cons_cons, compare_eq_iff_eq.mpr rfl]
    exact ih

/-- No key below a path comes before the path with the least segment. -/
theorem first_below [OrderBot σ] (below : path <+: key) (other : key ≠ path) : compareTo (path ++ [⊥]) key ≠ .gt := by
  obtain ⟨rest, rfl⟩ := below
  rw [compareTo_append]
  cases rest with
  | nil => exact absurd (List.append_nil path) other
  | cons segment rest =>
    change List.compareLex compare [⊥] (segment :: rest) ≠ .gt
    rw [List.compareLex_cons_cons]
    have least : compare (⊥ : σ) segment ≠ .gt := by
      intro greater
      exact not_lt_bot (compare_gt_iff_gt.mp greater)
    cases compared : compare (⊥ : σ) segment with
    | lt => exact fun same => Ordering.noConfusion same
    | gt => exact absurd compared least
    | eq => cases rest <;> simp [List.compareLex_nil_nil, List.compareLex_nil_cons]

theorem none_below_after [OrderBot σ] (reached : compareTo (path ++ [⊥]) first ≠ .gt) (past : ¬ path <+: first)
    (later : compareTo first second = .lt) : ¬ path <+: second := by
  induction path generalizing first second with
  | nil => exact absurd List.nil_prefix past
  | cons segment path ih =>
    rintro ⟨rest, rfl⟩
    cases first with
    | nil => exact reached (by simp [compareTo, List.compareLex_cons_nil])
    | cons top first =>
      change List.compareLex compare (segment :: (path ++ [⊥])) (top :: first) ≠ .gt at reached
      change List.compareLex compare (top :: first) (segment :: (path ++ rest)) = .lt at later
      rw [List.compareLex_cons_cons] at reached later
      cases compared : compare segment top with
      | gt => exact reached (by rw [compared]; rfl)
      | lt =>
        rw [Std.OrientedCmp.gt_of_lt compared] at later
        cases later
      | eq =>
        obtain rfl := Std.LawfulEqCmp.eq_of_compare compared
        rw [compared] at reached later
        exact ih reached (fun same => past (List.prefix_cons_inj segment |>.mpr same)) later (List.prefix_append path rest)

end Paths

section Scans

variable {σ α : Type} [LinearOrder σ] [OrderBot σ] {path : ResourcePath σ} {items : List (ResourcePath σ × α)}
  {entry : ResourcePath σ × α}

theorem mem_until_past (reached : ∀ other ∈ items, compareTo (path ++ [⊥]) other.1 ≠ .gt) (ascending : Ascending compareTo items)
    (member : entry ∈ items) (below : path <+: entry.1) : entry ∈ items.takeWhile fun other => path.isPrefixOf other.1 := by
  induction items with
  | nil => cases member
  | cons first rest ih =>
    obtain ⟨later, ordered⟩ := List.pairwise_cons.mp ascending
    by_cases inside : path.isPrefixOf first.1 = true
    · rw [List.takeWhile_cons, if_pos inside]
      rcases List.mem_cons.mp member with rfl | member
      · exact List.mem_cons_self
      · exact List.mem_cons_of_mem _ (ih (fun other member => reached other (List.mem_cons_of_mem _ member)) ordered member)
    · rcases List.mem_cons.mp member with rfl | member
      · exact absurd (isPrefixOf_iff.mpr below) inside
      · have past : ¬ path <+: first.1 := fun below => inside (isPrefixOf_iff.mpr below)
        exact absurd below (none_below_after (reached first List.mem_cons_self) past (later entry member))

/-- Between its lower bound and its break a scan sees every entry below the path. -/
theorem mem_scanned (ascending : Ascending compareTo items) (member : entry ∈ items) (below : path <+: entry.1)
    (other : entry.1 ≠ path) : entry ∈ (items.dropWhile fun first => against compareTo (path ++ [⊥]) first = .gt).takeWhile
      fun first => path.isPrefixOf first.1 := by
  induction items with
  | nil => cases member
  | cons first rest ih =>
    obtain ⟨later, ordered⟩ := List.pairwise_cons.mp ascending
    by_cases before : against compareTo (path ++ [⊥]) first = .gt
    · rw [List.dropWhile_cons_of_pos (by simpa using before)]
      rcases List.mem_cons.mp member with rfl | member
      · exact absurd before (first_below below other)
      · exact ih ordered member
    · rw [List.dropWhile_cons_of_neg (by simpa using before)]
      refine mem_until_past ?_ ascending member below
      intro second member
      rcases List.mem_cons.mp member with rfl | member
      · exact before
      · have below := Std.TransCmp.lt_of_isLE_of_lt (Ordering.isLE_iff_ne_gt.mpr before) (later second member)
        exact fun same => Ordering.noConfusion (below.symm.trans same)

end Scans

section Collection

variable {σ δ ν : Type} [LinearOrder σ] [DecidableEq δ] {query : Query (ResourcePath σ) δ ν} {since : Timestamp}
  {path key : ResourcePath σ} {results : DocumentMap σ δ}

/-- With enough fuel the loop collects up to the first key that is not below the path. -/
theorem scan_run {it : SortedMapIterator (ResourcePath σ) (CacheEntry σ δ)}
    {items : List (ResourcePath σ × CacheEntry σ δ)} {fuel : Nat} (anchored : Anchored it)
    (left : unvisited it = items) (enough : items.length < fuel) :
    scan query since path fuel it results =
      Transition.run (collect query since) results (items.takeWhile fun entry => path.isPrefixOf entry.1) := by
  induction items generalizing it fuel results with
  | nil =>
    cases fuel with
    | zero => cases enough
    | succ fuel =>
      rw [scan, if_pos (isEnd_of_nil anchored left)]
      rfl
  | cons entry rest ih =>
    cases fuel with
    | zero => cases enough
    | succ fuel =>
      obtain ⟨goesOn, got, next, advanced, anchored, left⟩ := turn_of_cons anchored left
      rw [scan, if_neg (by simp [goesOn]), got, Option.bind_some]
      by_cases below : path.isPrefixOf entry.1 = true
      · rw [if_pos below, List.takeWhile_cons, if_pos below, Transition.run]
        apply Option.bind_congr
        intro results _
        rw [advanced, Option.bind_some]
        exact ih anchored left (Nat.lt_of_succ_lt_succ enough)
      · rw [if_neg below, List.takeWhile_cons, if_neg below]
        rfl

def resultOf (query : Query (ResourcePath σ) δ ν) (since : Timestamp)
    (entry : ResourcePath σ × CacheEntry σ δ) : Option (ResourcePath σ × Document (ResourcePath σ) δ) :=
  (entry.2.1.document?.filter fun doc => since < entry.2.2 && query.matches doc).map fun doc => (entry.1, doc)

omit [LinearOrder σ] [DecidableEq δ] in
theorem resultOf_eq_some {entry : ResourcePath σ × CacheEntry σ δ} {document : Document (ResourcePath σ) δ} :
    resultOf query since entry = some (key, document) ↔
      entry.1 = key ∧ entry.2.1 = .document document ∧ since < entry.2.2 ∧ query.matches document = true := by
  obtain ⟨own, maybe, readTime⟩ := entry
  cases maybe with
  | noDocument => simp [resultOf, MaybeDocument.document?]
  | document held =>
    simp only [resultOf, MaybeDocument.document?, Option.map_eq_some_iff, Option.filter_eq_some_iff, Option.some.injEq, Prod.mk.injEq,
      Bool.and_eq_true, decide_eq_true_eq, MaybeDocument.document.injEq]
    refine ⟨?_, ?_⟩
    · rintro ⟨_, ⟨rfl, wanted⟩, rfl, rfl⟩
      exact ⟨rfl, rfl, wanted⟩
    · rintro ⟨rfl, rfl, wanted⟩
      exact ⟨held, ⟨rfl, wanted⟩, rfl, rfl⟩

def insertions (query : Query (ResourcePath σ) δ ν) (since : Timestamp) (entries : List (ResourcePath σ × CacheEntry σ δ)) :
    List (Edit (ResourcePath σ) (Document (ResourcePath σ) δ)) :=
  (entries.filterMap (resultOf query since)).map fun added => .insert added.1 added.2

theorem collect_eq (entry : ResourcePath σ × CacheEntry σ δ) : collect query since results entry =
    (resultOf query since entry).elim (some results) fun added => SortedMap.insert compareTo added.1 added.2 results := by
  obtain ⟨own, maybe, readTime⟩ := entry
  cases maybe with
  | noDocument => rfl
  | document doc =>
    by_cases late : since < readTime
    · by_cases fits : query.matches doc = true
      · simp [collect, resultOf, MaybeDocument.document?, Option.filter_some, late, fits, not_le.mpr late]
      · simp [collect, resultOf, MaybeDocument.document?, Option.filter_some, fits]
    · simp [collect, resultOf, MaybeDocument.document?, Option.filter_some, late, not_lt.mp late]

theorem collect_run (entries : List (ResourcePath σ × CacheEntry σ δ)) : Transition.run (collect query since) results entries =
    Transition.run (Edit.applyTo compareTo) results (insertions query since entries) := by
  induction entries generalizing results with
  | nil => rfl
  | cons entry entries ih =>
    rw [Transition.run, collect_eq, insertions]
    cases added : resultOf query since entry with
    | none =>
      rw [List.filterMap_cons_none added]
      exact ih
    | some found =>
      rw [List.filterMap_cons_some added]
      exact Option.bind_congr fun next _ => ih

inductive CacheEdit (σ δ : Type) where
  | add (document : MaybeDocument (ResourcePath σ) δ) (readTime : Timestamp)
  | remove (key : ResourcePath σ)

namespace CacheEdit

def applyTo (cache : MemoryRemoteDocumentCache σ δ) : CacheEdit σ δ → Option (MemoryRemoteDocumentCache σ δ)
  | .add document readTime => cache.add document readTime
  | .remove key => cache.remove key

def record (table : ResourcePath σ → Option (CacheEntry σ δ)) :
    CacheEdit σ δ → ResourcePath σ → Option (CacheEntry σ δ)
  | .add document readTime => Function.update table document.key (some (document, readTime))
  | .remove key => Function.update table key none

def recorded (edits : List (CacheEdit σ δ)) : ResourcePath σ → Option (CacheEntry σ δ) :=
  edits.foldl record fun _ => none

def edit : CacheEdit σ δ → Edit (ResourcePath σ) (CacheEntry σ δ)
  | .add document readTime => .insert document.key (document, readTime)
  | .remove key => .erase key

end CacheEdit

omit [DecidableEq δ] in
theorem assign_update {β : Type} (table : ResourcePath σ → Option β) (own other : ResourcePath σ) (value : Option β) :
    (if compareTo own other = .eq then value else table other) = Function.update table own value other := by
  rw [Function.update_apply]
  by_cases same : compareTo own other = .eq
  · rw [if_pos same, if_pos (Std.LawfulEqCmp.eq_of_compare same).symm]
  · rw [if_neg same, if_neg]
    rintro rfl
    exact same Std.ReflCmp.compare_self

theorem applyTo_edit (cache : MemoryRemoteDocumentCache σ δ) (change : CacheEdit σ δ) :
    change.edit.applyTo compareTo cache = change.applyTo cache := by
  cases change <;> rfl

omit [DecidableEq δ] in
theorem recorded_edit (edits : List (CacheEdit σ δ)) :
    (edits.map CacheEdit.edit).foldl (Edit.assign compareTo) (fun _ => none) = CacheEdit.recorded edits := by
  rw [List.foldl_map, CacheEdit.recorded]
  congr 1
  funext table change key
  cases change with
  | add document readTime => exact assign_update table document.key key (some (document, readTime))
  | remove gone => exact assign_update table gone key none

omit [DecidableEq δ] in
theorem recorded_added {edits : List (CacheEdit σ δ)} {maybe : MaybeDocument (ResourcePath σ) δ} {readTime : Timestamp}
    (held : CacheEdit.recorded edits key = some (maybe, readTime)) : maybe.key = key ∧ .add maybe readTime ∈ edits := by
  induction edits using List.reverseRecOn with
  | nil => cases held
  | append_singleton edits change ih =>
    rw [CacheEdit.recorded, List.foldl_append] at held
    have earlier : CacheEdit.recorded edits key = some (maybe, readTime) →
        maybe.key = key ∧ .add maybe readTime ∈ edits ++ [change] := by
      intro held
      obtain ⟨own, added⟩ := ih held
      exact ⟨own, List.mem_append_left _ added⟩
    cases change with
    | add document time =>
      simp only [List.foldl_cons, List.foldl_nil, CacheEdit.record, Function.update_apply] at held
      split at held
      next same =>
        cases held
        exact ⟨same.symm, List.mem_append_right _ (List.mem_singleton_self _)⟩
      next => exact earlier held
    | remove gone =>
      simp only [List.foldl_cons, List.foldl_nil, CacheEdit.record, Function.update_apply] at held
      split at held
      next => cases held
      next => exact earlier held

theorem run_edit (edits : List (CacheEdit σ δ)) : Transition.run CacheEdit.applyTo SortedMap.empty edits =
    Transition.run (Edit.applyTo compareTo) SortedMap.empty (edits.map CacheEdit.edit) := by
  have same : ∀ (cache : MemoryRemoteDocumentCache σ δ) (change : CacheEdit σ δ),
      change.edit.applyTo compareTo cache = (change.applyTo cache).map id :=
    fun cache change => (applyTo_edit cache change).trans (congrFun Option.map_id _).symm
  have both := Transition.run_map id CacheEdit.edit same SortedMap.empty edits
  rw [Option.map_id] at both
  exact both.symm

theorem run_recorded (edits : List (CacheEdit σ δ)) :
    ∃ cache, Transition.run CacheEdit.applyTo SortedMap.empty edits = some cache ∧ Valid compareTo cache ∧
      ∀ key, SortedMap.get compareTo key cache = CacheEdit.recorded edits key := by
  obtain ⟨cache, ran, valid, table⟩ := @run_assigns _ _ compareTo _ _ (edits.map CacheEdit.edit)
  rw [recorded_edit] at table
  exact ⟨cache, (run_edit edits).trans ran, valid, congrFun table⟩

variable [OrderBot σ]

def scanned (path : ResourcePath σ) (items : List (ResourcePath σ × CacheEntry σ δ)) :
    List (ResourcePath σ × CacheEntry σ δ) :=
  (items.dropWhile fun entry => against compareTo (path ++ [⊥]) entry = .gt).takeWhile fun entry => path.isPrefixOf entry.1

theorem getMatching_collects {cache : MemoryRemoteDocumentCache σ δ} (valid : Valid compareTo cache)
    (collection : path.isDocumentKey = false) :
    ∃ results, getMatching query since cache path = some results ∧ Valid compareTo results ∧ ∀ key document,
      SortedMap.get compareTo key results = some document ↔
        (key, document) ∈ (scanned path (listed cache)).filterMap (resultOf (query.inCollection path) since) := by
  have ordered : Ascending compareTo ((scanned path (listed cache)).filterMap (resultOf (query.inCollection path) since)) := by
    have part : (scanned path (listed cache)).Sublist (listed cache) := (List.takeWhile_sublist _).trans (List.dropWhile_sublist _)
    apply (valid.ascending.sublist part).filterMap
    intro first second below one added other behind
    rw [← (resultOf_eq_some.mp added).1, ← (resultOf_eq_some.mp behind).1]
    exact below
  have asserted : (path ++ [⊥]).isDocumentKey = true := by
    simp only [isDocumentKey, List.length_append, List.length_singleton, decide_eq_true_eq, decide_eq_false_iff_not] at collection ⊢
    omega
  have enough : ((listed cache).dropWhile fun entry => against compareTo (path ++ [⊥]) entry = .gt).length < cache.size + 1 := by
    rw [size_length valid]
    exact Nat.lt_succ_of_le (List.dropWhile_sublist _).length_le
  obtain ⟨results, built, valid', after⟩ := @run_assigns _ _ compareTo _ _
    (insertions (query.inCollection path) since (scanned path (listed cache)))
  refine ⟨results, ?_, valid', ?_⟩
  · rw [getMatching, if_pos asserted, scan_run (lowerBound_anchored cache _) (unvisited_lowerBound valid _) enough, collect_run]
    exact built
  · intro key document
    rw [congrFun after key, insertions, inserts_eq_some ordered]

theorem getMatching_recorded {edits : List (CacheEdit σ δ)} {cache : MemoryRemoteDocumentCache σ δ} (valid : Valid compareTo cache)
    (table : ∀ key, SortedMap.get compareTo key cache = CacheEdit.recorded edits key) (collection : path.isDocumentKey = false) :
    ∃ results, getMatching query since cache path = some results ∧ Valid compareTo results ∧ ∀ key document,
      SortedMap.get compareTo key results = some document ↔ ∃ readTime,
        CacheEdit.recorded edits key = some (.document document, readTime) ∧ since < readTime ∧
          (query.inCollection path).matches document = true := by
  obtain ⟨results, ran, valid', collected⟩ := @getMatching_collects _ _ _ _ _ query since path _ _ valid collection
  refine ⟨results, ran, valid', ?_⟩
  intro key document
  rw [collected, List.mem_filterMap]
  refine ⟨?_, ?_⟩
  · rintro ⟨⟨own, maybe, readTime⟩, member, added⟩
    obtain ⟨rfl, rfl, wanted⟩ := resultOf_eq_some.mp added
    have within := (List.dropWhile_sublist _).subset ((List.takeWhile_sublist _).subset member)
    exact ⟨readTime, (table own).symm.trans ((get_eq_some valid).mpr within), wanted⟩
  · rintro ⟨readTime, recorded, late, fits⟩
    have own : document.key = key := (recorded_added recorded).1
    have parent : path.isImmediateParentOf key = true := by
      rw [Query.matches, Bool.and_eq_true, Bool.and_eq_true, Bool.and_eq_true, own] at fits
      exact fits.1.1.1
    obtain ⟨below, other⟩ := isImmediateParentOf_prefix parent
    have within : (key, .document document, readTime) ∈ listed cache := (get_eq_some valid).mp ((table key).trans recorded)
    exact ⟨(key, .document document, readTime), mem_scanned valid.ascending within below other,
      resultOf_eq_some.mpr ⟨rfl, rfl, late, fits⟩⟩

/-- Whatever the server sent, the scan of a collection never fails and finds exactly the
matching documents that were read later than asked for. -/
theorem getMatching_finds_matching (edits : List (CacheEdit σ δ)) (query : Query (ResourcePath σ) δ ν) (since : Timestamp)
    (collection : path.isDocumentKey = false) :
    ∃ cache results, Transition.run CacheEdit.applyTo SortedMap.empty edits = some cache ∧
      (∀ key, cache.get key = (CacheEdit.recorded edits key).map Prod.fst) ∧
      getMatching query since cache path = some results ∧ Valid compareTo results ∧
      ∀ key document, SortedMap.get compareTo key results = some document ↔ ∃ readTime,
        CacheEdit.recorded edits key = some (.document document, readTime) ∧ since < readTime ∧
          (query.inCollection path).matches document = true := by
  obtain ⟨cache, ran, valid, table⟩ := run_recorded edits
  obtain ⟨results, scanned, valid', answers⟩ := @getMatching_recorded _ _ _ _ _ query since path _ _ _ valid table collection
  exact ⟨cache, results, ran, fun key => congrArg (Option.map Prod.fst) (table key), scanned, valid', answers⟩

end Collection

/-- No string comes before the empty one. -/
instance emptyStringFirst : OrderBot String where
  bot := ""
  bot_le text := by
    apply not_lt.mp
    intro below
    exact List.not_lt_nil _ (String.lt_iff_toList_lt.mp below)

def cachedUsers : List (CacheEdit String Nat) :=
  [.add (.document ⟨["users", "ann"], 1, ⟨1, 0⟩, .synced⟩) ⟨2, 0⟩,
    .add (.document ⟨["users", "ann", "messages", "m"], 2, ⟨1, 0⟩, .synced⟩) ⟨2, 0⟩,
    .add (.document ⟨["users", "bob"], 3, ⟨1, 0⟩, .synced⟩) ⟨2, 0⟩, .remove ["users", "bob"]]

def userDocuments : Query (ResourcePath String) Nat Nat := ⟨fun _ => true, [], [], .none, Target.kNoLimit, none, none⟩

theorem user_documents_found :
    ∃ cache results, Transition.run CacheEdit.applyTo SortedMap.empty cachedUsers = some cache ∧
      (∀ key, cache.get key = (CacheEdit.recorded cachedUsers key).map Prod.fst) ∧
      getMatching userDocuments ⟨0, 0⟩ cache ["users"] = some results ∧ Valid compareTo results ∧
      ∀ key document, SortedMap.get compareTo key results = some document ↔ ∃ readTime,
        CacheEdit.recorded cachedUsers key = some (.document document, readTime) ∧ (⟨0, 0⟩ : Timestamp) < readTime ∧
          (userDocuments.inCollection ["users"]).matches document = true :=
  getMatching_finds_matching cachedUsers userDocuments ⟨0, 0⟩ rfl

section Documents

variable {σ δ ν : Type} [LinearOrder σ] [DecidableEq δ]

def CacheEdit.edited (cache : RemoteDocumentCache (ResourcePath σ) δ) : CacheEdit σ δ → RemoteDocumentCache (ResourcePath σ) δ
  | .add document readTime => cache.add document readTime
  | .remove key => cache.remove key

/-- The cache as the local store is described with it. -/
def CacheEdit.documents (edits : List (CacheEdit σ δ)) : RemoteDocumentCache (ResourcePath σ) δ :=
  edits.foldl CacheEdit.edited RemoteDocumentCache.empty

omit [DecidableEq δ] in
theorem documents_recorded (edits : List (CacheEdit σ δ)) (key : ResourcePath σ) :
    (CacheEdit.documents edits).get key = (CacheEdit.recorded edits key).map Prod.fst ∧
      ∀ entry, CacheEdit.recorded edits key = some entry → (CacheEdit.documents edits).readTimes key = entry.2 := by
  induction edits using List.reverseRecOn with
  | nil => exact ⟨rfl, fun _ missing => nomatch missing⟩
  | append_singleton edits change ih =>
    simp only [CacheEdit.documents, CacheEdit.recorded, List.foldl_append, List.foldl_cons, List.foldl_nil]
    cases change with
    | add document readTime =>
      by_cases own : document.key = key
      · subst own
        simp only [CacheEdit.edited, CacheEdit.record, RemoteDocumentCache.get_add, RemoteDocumentCache.readTimes_add,
          Function.update_self, if_true, Option.map_some, Option.some.injEq, forall_eq', and_self]
      · simp only [CacheEdit.edited, CacheEdit.record, RemoteDocumentCache.get_add, RemoteDocumentCache.readTimes_add,
          Function.update_of_ne (Ne.symm own), own, if_false]
        exact ih
    | remove gone =>
      by_cases own : gone = key
      · subst own
        simp [CacheEdit.edited, CacheEdit.record]
      · simp only [CacheEdit.edited, CacheEdit.record, RemoteDocumentCache.get_remove, Function.update_of_ne (Ne.symm own), own, if_false]
        exact ih

omit [LinearOrder σ] [DecidableEq δ] in
theorem filtered_eq_some {wanted : Document (ResourcePath σ) δ → Bool} {maybe : MaybeDocument (ResourcePath σ) δ}
    {document : Document (ResourcePath σ) δ} :
    ((some maybe).filter fun maybe => maybe.document?.any wanted).bind MaybeDocument.document? = some document ↔
      maybe = .document document ∧ wanted document = true := by
  cases maybe with
  | noDocument => simp [MaybeDocument.document?, Option.filter_some]
  | document known =>
    rw [Option.filter_some, MaybeDocument.document?, Option.any_some, MaybeDocument.document.injEq]
    by_cases fits : wanted known = true
    · rw [if_pos fits, Option.bind_some, MaybeDocument.document?, Option.some.injEq]
      refine ⟨?_, And.left⟩
      rintro rfl
      exact ⟨rfl, fits⟩
    · rw [if_neg fits, Option.bind_none]
      refine ⟨?_, ?_⟩
      · intro impossible
        cases impossible
      · rintro ⟨rfl, accepted⟩
        exact absurd accepted fits

variable [OrderBot σ]

/-- The stored cache is the one that the local store is described with, and the scan of
a collection is a filter of it. -/
theorem collection_scan_is_filter (edits : List (CacheEdit σ δ)) (query : Query (ResourcePath σ) δ ν) (since : Timestamp)
    {path : ResourcePath σ} (collection : path.isDocumentKey = false) :
    ∃ cache results, Transition.run CacheEdit.applyTo SortedMap.empty edits = some cache ∧
      (∀ key, cache.get key = (CacheEdit.documents edits).get key) ∧ getMatching query since cache path = some results ∧
      ∀ key, SortedMap.get compareTo key results =
        (((CacheEdit.documents edits).getMatching (query.inCollection path) since).find key).bind MaybeDocument.document? := by
  obtain ⟨cache, ran, valid, table⟩ := run_recorded edits
  obtain ⟨results, found, _, answers⟩ := @getMatching_recorded _ _ _ _ _ query since path _ _ _ valid table collection
  refine ⟨cache, results, ran, ?_, found, ?_⟩
  · intro key
    rw [(documents_recorded edits key).1, ← table key]
    rfl
  · intro key
    obtain ⟨listed, read⟩ := documents_recorded edits key
    -- Equality of paths is decided in two ways here.
    have filtered : ((CacheEdit.documents edits).getMatching (query.inCollection path) since).find key =
        ((CacheEdit.documents edits).get key).filter fun maybe => since < (CacheEdit.documents edits).readTimes maybe.key &&
          maybe.document?.any (query.inCollection path).matches := by
      convert RemoteDocumentCache.find_getMatching (CacheEdit.documents edits) (query.inCollection path) since key
    apply Option.ext
    intro document
    rw [answers, filtered, listed]
    cases held : CacheEdit.recorded edits key with
    | none => simp
    | some entry =>
      obtain ⟨maybe, readTime⟩ := entry
      have keyed : maybe.key = key := (recorded_added held).1
      have time := read _ held
      rw [Option.map_some, Option.filter_some, keyed, time]
      by_cases late : since < readTime
      · have accepts := @filtered_eq_some _ _ (query.inCollection path).matches maybe document
        rw [Option.filter_some] at accepts
        simp only [late, decide_true, Bool.true_and]
        rw [accepts]
        refine ⟨?_, ?_⟩
        · rintro ⟨_, same, _, fits⟩
          cases same
          exact ⟨rfl, fits⟩
        · rintro ⟨rfl, fits⟩
          exact ⟨readTime, rfl, late, fits⟩
      · simp only [late, decide_false, Bool.false_and, Bool.false_eq_true, if_false, Option.bind_none]
        refine ⟨?_, fun impossible => nomatch impossible⟩
        rintro ⟨_, same, later, _⟩
        cases same
        exact absurd later late

theorem user_documents_filtered :
    ∃ cache results, Transition.run CacheEdit.applyTo SortedMap.empty cachedUsers = some cache ∧
      (∀ key, cache.get key = (CacheEdit.documents cachedUsers).get key) ∧
      getMatching userDocuments ⟨1, 0⟩ cache ["users"] = some results ∧
      ∀ key, SortedMap.get compareTo key results =
        (((CacheEdit.documents cachedUsers).getMatching (userDocuments.inCollection ["users"]) ⟨1, 0⟩).find key).bind
          MaybeDocument.document? :=
  collection_scan_is_filter cachedUsers userDocuments ⟨1, 0⟩ rfl

end Documents

end FireChat.Core.Proofs
