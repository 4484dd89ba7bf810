import FireChat.Core.QueryEngine
import FireChat.Proofs.Backing

/-! The query engine. A run that starts from earlier results finds what a scan of all
local documents finds, unless it passes over a document that would be shown. -/

namespace FireChat.Core.Proofs

variable {κ δ ν υ : Type} [LinearOrder κ] {query : Query κ δ ν}

section Scans

variable {store : LocalStore υ κ δ} {sinceReadTime : Timestamp} {key : κ}

def matching (query : Query κ δ ν) (store : LocalStore υ κ δ) (key : κ) : Option (Document κ δ) :=
  (showing (localDocument store key)).filter query.matches

/-- A scan leaves out what was read before its time and has no pending write. -/
def PassedOver (store : LocalStore υ κ δ) (sinceReadTime : Timestamp) (key : κ) : Prop :=
  about key (pending store) = [] ∧ store.remoteDocumentCache.readTimes key ≤ sinceReadTime

theorem seenBy_passedOver (passed : PassedOver store sinceReadTime key) :
    seenBy query (overlay (about key (pending store)) (readSince store sinceReadTime key)) = none := by
  obtain ⟨nothing, early⟩ := passed
  rw [nothing, readSince, if_neg (not_lt_of_ge early)]
  rfl

theorem seenBy_read (read : ¬PassedOver store sinceReadTime key) :
    seenBy query (overlay (about key (pending store)) (readSince store sinceReadTime key)) = (matching query store key).map face := by
  change _ = seenBy query (overlay (about key (pending store)) (store.remoteDocumentCache.get key))
  obtain nothing | ⟨earlier, mutation, writes⟩ := List.eq_nil_or_concat' (about key (pending store))
  · have late : sinceReadTime < store.remoteDocumentCache.readTimes key := not_le.mp fun early => read ⟨nothing, early⟩
    rw [readSince, if_pos late]
  · rw [writes, overlay_concat, overlay_concat]
    exact seenBy_applied query mutation _ _

theorem lists_of_face {docs : MaybeDocumentMap κ δ} {known : κ → Option (Document κ δ)}
    (fit : ∀ maybe ∈ docs.list, ∃ document, maybe = .document document ∧ query.matches document)
    (seen : ∀ key, (showing (docs.find key)).map face = (known key).map face) : Lists query docs known := by
  intro key
  have same := seen key
  cases found : docs.find key with
  | none =>
    rw [found] at same
    exact Option.map_eq_none_iff.mp same.symm
  | some maybe =>
    obtain ⟨document, rfl, fits⟩ := fit maybe (Keyed.Items.find_eq_some.mp found).1
    rw [found] at same
    obtain ⟨other, held, equal⟩ := Option.map_eq_some_iff.mp same.symm
    exact ⟨document, other, if_pos fits, held, equal.symm⟩

theorem executeFullCollectionScan_lists [Ord ν] [Std.TransOrd ν] (intact : Intact store) (query : Query κ δ ν) :
    ∃ docs, QueryEngine.executeFullCollectionScan store query = some docs ∧ Lists query docs (matching query store) := by
  obtain ⟨docs, executed, fit, seen⟩ := getDocumentsMatchingQuery_spec query intact SnapshotVersion.none
  refine ⟨docs, executed, lists_of_face fit ?_⟩
  intro key
  rw [seen key]
  have everything : readSince store SnapshotVersion.none key = store.remoteDocumentCache.get key := by
    rw [readSince]
    cases held : store.remoteDocumentCache.get key with
    | none => exact ite_self none
    | some maybe => exact if_pos (intact.dated key (held ▸ rfl))
  rw [everything]
  rfl

end Scans

variable [Ord ν] [Std.TransOrd ν]

section PreviousResults

variable {store : LocalStore υ κ δ} {documents updatedResults : MaybeDocumentMap κ δ} {previous : PreviousResults κ}

theorem applyQueryAt_find (queryResults : DocumentSet query) (maybe : MaybeDocument κ δ) (key : κ) :
    (QueryEngine.applyQueryAt queryResults maybe).find key =
      if maybe.key = key then (newDoc? query maybe).or (queryResults.find key) else queryResults.find key := by
  cases maybe with
  | noDocument => exact (ite_self _).symm
  | document document =>
    simp only [QueryEngine.applyQueryAt, newDoc?]
    split
    next => rw [Keyed.Sorted.find_insert]; rfl
    next => exact (ite_self _).symm

theorem applyQuery_find (query : Query κ δ ν) (documents : MaybeDocumentMap κ δ) (key : κ) :
    (QueryEngine.applyQuery query documents).find key = (documents.find key).bind (newDoc? query) := by
  rw [QueryEngine.applyQuery, Keyed.Sorted.find_foldl_offers applyQueryAt_find documents.distinct]
  exact Option.or_none

theorem previousResults_find (query : Query κ δ ν) (intact : Intact store) (keys : List κ) :
    ∃ documents, store.getDocuments keys = some documents ∧
      ∀ key, (QueryEngine.applyQuery query documents).find key = if key ∈ keys then matching query store key else none := by
  obtain ⟨documents, looked, found⟩ := getLocalView_spec intact (cached_key store.remoteDocumentCache) keys
  refine ⟨documents, looked, ?_⟩
  intro key
  rw [applyQuery_find, found key]
  split
  next =>
    rw [Option.bind_some, newDoc_filter, matching, localDocument]
    cases overlay (about key (pending store)) (store.remoteDocumentCache.get key) <;> rfl
  next => rfl

omit [Std.TransOrd ν] in
theorem merged_find (previousResults : DocumentSet query) (updatedResults : MaybeDocumentMap κ δ) (key : κ) :
    (previousResults.list.foldl (fun results result => results.insert (.document result)) updatedResults).find key =
      ((previousResults.find key).map MaybeDocument.document).or (updatedResults.find key) := by
  have turn : ∀ (results : MaybeDocumentMap κ δ) (result : Document κ δ) target, (results.insert (.document result)).find target =
      if result.key = target then (some (MaybeDocument.document result)).or (results.find target) else results.find target :=
    fun results result target => Keyed.Sorted.find_insert results (.document result) target
  rw [Keyed.Sorted.find_foldl_offers turn previousResults.distinct, Option.map_eq_bind]
  rfl

/-- A run that needs no refill has a matching document under every remote key. -/
theorem remoteKeys_match (intact : Intact store) {limit : LimitType} {limboFree : Timestamp} {remoteKeys : List κ}
    (looked : store.getDocuments remoteKeys = some documents)
    (kept : QueryEngine.needsRefill limit (QueryEngine.applyQuery query documents) remoteKeys limboFree = false) :
    ∀ key ∈ remoteKeys, ∃ document, matching query store key = some document := by
  obtain ⟨same, again, found⟩ := previousResults_find query intact remoteKeys
  cases again.symm.trans looked
  let names := (QueryEngine.applyQuery query documents).list.map Document.key
  have listed : ∀ key ∈ names, key ∈ remoteKeys ∧ ∃ document, matching query store key = some document := by
    intro key member
    obtain ⟨document, held, keyed⟩ := List.mem_map.mp member
    have entry := found key
    rw [Keyed.Items.find_eq_some.mpr ⟨held, keyed⟩] at entry
    obtain ⟨remote, known⟩ := Option.ite_none_right_eq_some.mp entry.symm
    exact ⟨remote, document, known⟩
  have counted : remoteKeys.length ≤ names.length := by
    rw [List.length_map]
    unfold QueryEngine.needsRefill at kept
    split at kept
    next => cases kept
    next same => exact (not_not.mp same).le
  have among := (QueryEngine.applyQuery query documents).distinct.subperm fun key member => (listed key member).1
  intro key member
  exact (listed key ((among.perm_of_length_le counted).symm.subset member)).2

end PreviousResults

section Limits

variable {part known : κ → Option (Document κ δ)}

def Precedes (query : Query κ δ ν) (document other : Document κ δ) : Prop :=
  if query.hasLimitToFirst then query.comparator document other = .lt else query.comparator document other = .gt

/-- The documents found fill the limit, and those left out come after. -/
structure Fills (query : Query κ δ ν) (part known : κ → Option (Document κ δ)) : Prop where
  isLimited : query.limitType ≠ .none
  among : ∀ key, part key = known key ∨ part key = none
  full : ∃ keys : List κ, keys.Nodup ∧ keys.length = query.limit ∧ ∀ key ∈ keys, ∃ document, part key = some document ∧
    ∀ other left, part other = none → known other = some left → Precedes query document left

def Faces (documents : DocumentSet query) (known : κ → Option (Document κ δ)) : Prop :=
  ∀ key, (documents.find key).map face = (known key).map face

omit [Std.TransOrd ν] in
theorem precedes_first (first : query.hasLimitToFirst) {document other : Document κ δ} :
    Precedes query document other ↔ query.comparator document other = .lt := by
  rw [Precedes, if_pos first]

omit [Std.TransOrd ν] in
theorem precedes_last (last : query.hasLimitToLast) {document other : Document κ δ} :
    Precedes query document other ↔ query.comparator document other = .gt := by
  have type : query.limitType = .last := by simpa [Query.hasLimitToLast] using last
  rw [Precedes, if_neg (by simp [Query.hasLimitToFirst, type])]

theorem Precedes.irrefl (document : Document κ δ) : ¬Precedes query document document := by
  have equal : query.comparator document document = .eq := Std.ReflCmp.compare_self
  unfold Precedes
  rw [equal]
  split
  next => exact nofun
  next => exact nofun

omit [Std.TransOrd ν] in
theorem Precedes.congr {document other first second : Document κ δ} (precedes : Precedes query document other)
    (left : document.content = first.content) (right : other.content = second.content) : Precedes query first second := by
  unfold Precedes at precedes ⊢
  rwa [query.comparator_congr left right] at precedes

/-- The documents left out make no difference to what the limit leaves. -/
theorem Fills.limited_eq (fills : Fills query part known) {few full : DocumentSet query} (found : Faces few part)
    (shows : Faces full known) (wider : ∀ key document, few.find key = some document → full.find key = some document) :
    limited query few.list = limited query full.list := by
  classical
  obtain ⟨isLimited, _, keys, distinct, count, inside⟩ := fills
  let within (document : Document κ δ) : Bool := decide (∀ other left, part other = none → known other = some left → Precedes query document left)
  have same : ∀ item, within item → (item ∈ few.list ↔ item ∈ full.list) := by
    intro item near
    refine ⟨?_, ?_⟩
    · intro member
      exact (Keyed.Items.find_eq_some.mp (wider item.key item (Keyed.Items.find_eq_some.mpr ⟨member, rfl⟩))).1
    · intro member
      have held : full.find item.key = some item := Keyed.Items.find_eq_some.mpr ⟨member, rfl⟩
      cases listed : few.find item.key with
      | some document =>
        cases (wider item.key document listed).symm.trans held
        exact (Keyed.Items.find_eq_some.mp listed).1
      | none =>
        -- A document that is left out does not come before itself.
        have missing := found item.key
        rw [listed] at missing
        have seen := shows item.key
        rw [held] at seen
        obtain ⟨left, known, equal⟩ := Option.map_eq_some_iff.mp seen.symm
        have before := of_decide_eq_true near item.key left (Option.map_eq_none_iff.mp missing.symm) known
        exact absurd (before.congr rfl (congrArg Prod.fst equal)) (Precedes.irrefl item)
  have enough : query.limit ≤ (few.list.filter within).length := by
    have labels : ∀ key ∈ keys, key ∈ (few.list.filter within).map Document.key := by
      intro key member
      obtain ⟨document, held, near⟩ := inside key member
      have seen := found key
      rw [held] at seen
      obtain ⟨item, listed, equal⟩ := Option.map_eq_some_iff.mp seen
      obtain ⟨shown, keyed⟩ := Keyed.Items.find_eq_some.mp listed
      refine List.mem_map.mpr ⟨item, List.mem_filter.mpr ⟨shown, decide_eq_true ?_⟩, keyed⟩
      intro other left missing known
      exact (near other left missing known).congr (congrArg Prod.fst equal).symm rfl
    have counted := (distinct.subperm labels).length_le
    rwa [List.length_map, count] at counted
  cases type : query.limitType with
  | none => exact absurd type isLimited
  | first =>
    have first : query.hasLimitToFirst := by simp [Query.hasLimitToFirst, type]
    rw [limited_first first, limited_first first]
    refine Keyed.Sorted.take_congr ?_ same enough
    intro a b below near
    apply decide_eq_true
    intro other left missing known
    have before := (precedes_first first).mp (of_decide_eq_true near other left missing known)
    exact (precedes_first first).mpr (Std.TransCmp.lt_trans below before)
  | last =>
    have last : query.hasLimitToLast := by simp [Query.hasLimitToLast, type]
    rw [limited_last last, limited_last last]
    refine Keyed.Sorted.drop_congr ?_ same enough
    intro a b below near
    apply decide_eq_true
    intro other left missing known
    have before := (precedes_last last).mp (of_decide_eq_true near other left missing known)
    exact (precedes_last last).mpr (Std.TransCmp.gt_trans (Std.OrientedCmp.gt_of_lt below) before)

/-- The documents that a query finds are those known, or as many of the first as its limit takes. -/
def Serves (query : Query κ δ ν) (found : MaybeDocumentMap κ δ) (known : κ → Option (Document κ δ)) : Prop :=
  ∃ part, Lists query found part ∧ (part = known ∨ Fills query part known)

omit [Std.TransOrd ν] in
theorem Lists.serves {found : MaybeDocumentMap κ δ} (lists : Lists query found known) : Serves query found known :=
  ⟨known, lists, .inl rfl⟩

omit [Std.TransOrd ν] in
theorem Serves.lists {found : MaybeDocumentMap κ δ} (serves : Serves query found known) (unlimited : query.limitType = .none) :
    Lists query found known := by
  obtain ⟨part, lists, rfl | fills⟩ := serves
  · exact lists
  · exact absurd unlimited fills.isLimited

omit [Std.TransOrd ν] in
theorem Lists.faces {found : MaybeDocumentMap κ δ} (lists : Lists query found known) {documents : DocumentSet query}
    (looped : ∀ key, documents.find key = (found.find key).bind (newDoc? query)) : Faces documents known := by
  intro key
  have entry := lists key
  rw [looped key]
  cases listed : found.find key with
  | none =>
    rw [listed] at entry
    rw [entry]
    rfl
  | some maybe =>
    rw [listed] at entry
    obtain ⟨document, other, offered, held, same⟩ := entry
    rw [Option.bind_some, offered, held, Option.map_some, Option.map_some, same]

omit [Std.TransOrd ν] in
theorem Faces.agrees {documents : DocumentSet query} (faces : Faces documents known) (key : κ) : Agrees (documents.find key) (known key) := by
  have same := faces key
  cases held : documents.find key with
  | none =>
    rw [held] at same
    rw [Option.map_eq_none_iff.mp same.symm]
    trivial
  | some document =>
    rw [held] at same
    obtain ⟨other, found, equal⟩ := Option.map_eq_some_iff.mp same.symm
    have itself : Fresh document document := .inl ⟨rfl, rfl⟩
    rw [found]
    exact itself.congr equal.symm

variable [DecidableEq δ] {after : View query} {documents all : MaybeDocumentMap κ δ} {remoteKeys : Finset κ}
  {targetChange : Option (TargetChange κ)} {snapshot : ViewSnapshot query}

theorem initializeView_backed (serves : Serves query documents known) (lists : Lists query all known)
    (opened : initializeView query documents remoteKeys targetChange = some (after, snapshot)) : Backed after.documentSet known := by
  obtain ⟨few, list, looped⟩ := initializeView_limited opened
  obtain ⟨part, found, rfl | fills⟩ := serves
  · exact ⟨few, list, (found.faces looped).agrees⟩
  · -- What was left out is put back behind the documents of the view.
    let entry (key : κ) : Option (Document κ δ) := (few.find key).or ((all.find key).bind (newDoc? query))
    have own : ∀ key document, entry key = some document → document.key = key := by
      intro key document entered
      rcases Option.or_eq_some_iff.mp entered with held | ⟨_, offered⟩
      · exact find_key held
      · obtain ⟨maybe, listed, offered⟩ := Option.bind_eq_some_iff.mp offered
        exact (newDoc_key offered).trans (Keyed.Items.find_eq_some.mp listed).2
    obtain ⟨full, replaced⟩ := few.exists_replaced (all.list.map MaybeDocument.key) own
    have entries : ∀ key, full.find key = entry key := by
      intro key
      rw [replaced key]
      split
      next => rfl
      next absent =>
        have missing : all.find key = none := by
          cases listed : all.find key with
          | none => rfl
          | some maybe => exact absurd (List.mem_map.mpr ⟨maybe, Keyed.Items.find_eq_some.mp listed⟩) absent
        simp only [entry, missing, Option.bind_none, Option.or_none]
    have faces := found.faces looped
    have whole : Faces (QueryEngine.applyQuery query all) known := lists.faces (applyQuery_find query all)
    have shows : Faces full known := by
      intro key
      rw [entries key]
      cases held : few.find key with
      | some document =>
        have same := faces key
        rw [held] at same
        rcases fills.among key with equal | nothing
        · simp only [entry, held, ← equal]
          exact same
        · rw [nothing] at same
          cases same
      | none =>
        have same := whole key
        rw [applyQuery_find] at same
        simp only [entry, held, Option.none_or]
        exact same
    have wider : ∀ key document, few.find key = some document → full.find key = some document := by
      intro key document held
      rw [entries key]
      simp only [entry, held]
      rfl
    exact ⟨full, list.trans (fills.limited_eq faces shows wider), shows.agrees⟩

end Limits

section Runs

variable {store : LocalStore υ κ δ} {previous : PreviousResults κ}

def Reuses (query : Query κ δ ν) (store : LocalStore υ κ δ) (previous : PreviousResults κ) : Prop :=
  query.matchesAllDocuments = false ∧ previous.lastLimboFreeSnapshotVersion ≠ SnapshotVersion.none ∧
    (query.limitType ≠ .none → ∀ documents, store.getDocuments previous.remoteKeys = some documents →
      QueryEngine.needsRefill query.limitType (QueryEngine.applyQuery query documents) previous.remoteKeys
        previous.lastLimboFreeSnapshotVersion = false)

/-- What a run from previous results finds: the scan passes over what they should have. -/
noncomputable def resumed (query : Query κ δ ν) (store : LocalStore υ κ δ) (previous : PreviousResults κ) (key : κ) :
    Option (Document κ δ) :=
  @ite _ (PassedOver store previous.lastLimboFreeSnapshotVersion key ∧ key ∉ previous.remoteKeys) (Classical.propDecidable _)
    none (matching query store key)

omit [Ord ν] [Std.TransOrd ν] in
theorem resumed_cases (query : Query κ δ ν) (store : LocalStore υ κ δ) (previous : PreviousResults κ) (key : κ) :
    resumed query store previous key = matching query store key ∨
      PassedOver store previous.lastLimboFreeSnapshotVersion key ∧ key ∉ previous.remoteKeys ∧
        resumed query store previous key = none := by
  unfold resumed
  split
  next passed => exact .inr ⟨passed.1, passed.2, rfl⟩
  next => exact .inl rfl

omit [Ord ν] [Std.TransOrd ν] in
theorem resumed_remote (query : Query κ δ ν) (store : LocalStore υ κ δ) {key : κ} (member : key ∈ previous.remoteKeys) :
    resumed query store previous key = matching query store key :=
  if_neg fun passed => passed.2 member

/-- A document that is matched, but neither a remote key nor read since, comes after the
previous results, which fill the limit. -/
def Resumable (query : Query κ δ ν) (store : LocalStore υ κ δ) (previous : PreviousResults κ) : Prop :=
  Reuses query store previous → ∀ key left, PassedOver store previous.lastLimboFreeSnapshotVersion key → key ∉ previous.remoteKeys →
    matching query store key = some left → query.limitType ≠ .none ∧ previous.remoteKeys.length = query.limit ∧
      ∀ other ∈ previous.remoteKeys, ∀ document, matching query store other = some document → Precedes query document left

/-- A scan does not depend on any previous results. -/
theorem resumable_none (query : Query κ δ ν) (store : LocalStore υ κ δ) : Resumable query store .none :=
  fun reuses => absurd rfl reuses.2.1

theorem merged_lists {documents updatedResults : MaybeDocumentMap κ δ}
    (looked : ∀ key, (QueryEngine.applyQuery query documents).find key =
      if key ∈ previous.remoteKeys then matching query store key else none)
    (fit : ∀ maybe ∈ updatedResults.list, ∃ document, maybe = .document document ∧ query.matches document)
    (seen : ∀ key, (showing (updatedResults.find key)).map face =
      seenBy query (overlay (about key (pending store)) (readSince store previous.lastLimboFreeSnapshotVersion key))) :
    Lists query ((QueryEngine.applyQuery query documents).list.foldl (fun results result => results.insert (.document result)) updatedResults)
      (resumed query store previous) := by
  let previousResults := QueryEngine.applyQuery query documents
  let results := previousResults.list.foldl (fun results result => results.insert (.document result)) updatedResults
  have merged : ∀ key, results.find key = ((previousResults.find key).map MaybeDocument.document).or (updatedResults.find key) :=
    merged_find previousResults updatedResults
  have listed : ∀ key document, previousResults.find key = some document → key ∈ previous.remoteKeys ∧ matching query store key = some document := by
    intro key document held
    rw [looked key] at held
    obtain ⟨member, found⟩ := Option.ite_none_right_eq_some.mp held
    exact ⟨member, found⟩
  apply lists_of_face
  · intro maybe member
    have held : results.find maybe.key = some maybe := Keyed.Items.find_eq_some.mpr ⟨member, rfl⟩
    rw [merged] at held
    rcases Option.or_eq_some_iff.mp held with earlier | ⟨_, updated⟩
    · obtain ⟨document, found, rfl⟩ := Option.map_eq_some_iff.mp earlier
      exact ⟨document, rfl, (Option.filter_eq_some_iff.mp (listed _ document found).2).2⟩
    · exact fit maybe (Keyed.Items.find_eq_some.mp updated).1
  · intro key
    change (showing (results.find key)).map face = _
    rw [merged]
    cases held : previousResults.find key with
    | some document =>
      obtain ⟨member, found⟩ := listed key document held
      rw [resumed_remote query store member, found]
      rfl
    | none =>
      rw [Option.map_none, Option.none_or, seen key]
      by_cases passed : PassedOver store previous.lastLimboFreeSnapshotVersion key
      · rw [seenBy_passedOver passed]
        by_cases member : key ∈ previous.remoteKeys
        · have found := looked key
          rw [if_pos member] at found
          rw [resumed_remote query store member, ← found]
          exact congrArg (Option.map face) held.symm
        · rw [resumed, if_pos ⟨passed, member⟩]
          rfl
      · rw [seenBy_read passed, resumed, if_neg fun both => passed both.1]

/-- A run of the query goes through, and finds all that is known unless it reuses its previous results. -/
theorem executeQuery_cases (intact : Intact store) (query : Query κ δ ν) (previous : PreviousResults κ) :
    ∃ docs, store.executeQuery query previous = some docs ∧
      (Lists query docs (matching query store) ∨ Reuses query store previous ∧ Lists query docs (resumed query store previous)) := by
  obtain ⟨all, scanned, lists⟩ := executeFullCollectionScan_lists intact query
  unfold LocalStore.executeQuery QueryEngine.getDocumentsMatchingQuery
  by_cases every : query.matchesAllDocuments
  · exact ⟨all, by rw [if_pos every, scanned], .inl lists⟩
  · rw [if_neg every]
    by_cases never : previous.lastLimboFreeSnapshotVersion = SnapshotVersion.none
    · exact ⟨all, by rw [if_pos never, scanned], .inl lists⟩
    · rw [if_neg never]
      obtain ⟨documents, looked, found⟩ := previousResults_find query intact previous.remoteKeys
      rw [looked, Option.bind_some]
      simp only
      split
      next => exact ⟨all, scanned, .inl lists⟩
      next keeps =>
        obtain ⟨updatedResults, updated, fit, seen⟩ := getDocumentsMatchingQuery_spec query intact previous.lastLimboFreeSnapshotVersion
        rw [updated, Option.map_some]
        refine ⟨_, rfl, .inr ⟨⟨Bool.eq_false_iff.mpr every, never, ?_⟩, merged_lists found fit seen⟩⟩
        intro isLimited same again
        cases looked.symm.trans again
        simpa [isLimited] using keeps

/-- What a listen that may start from previous results is handed serves its view. -/
theorem executeQuery_serves (intact : Intact store) (resumable : Resumable query store previous) :
    ∃ docs, store.executeQuery query previous = some docs ∧ Serves query docs (matching query store) := by
  obtain ⟨docs, executed, lists | ⟨reuses, lists⟩⟩ := executeQuery_cases intact query previous
  · exact ⟨docs, executed, lists.serves⟩
  · refine ⟨docs, executed, resumed query store previous, lists, ?_⟩
    by_cases skips : ∃ key left, PassedOver store previous.lastLimboFreeSnapshotVersion key ∧ key ∉ previous.remoteKeys ∧
      matching query store key = some left
    · right
      obtain ⟨key, left, passed, other, known⟩ := skips
      obtain ⟨isLimited, count, _⟩ := resumable reuses key left passed other known
      obtain ⟨documents, looked, _⟩ := previousResults_find query intact previous.remoteKeys
      refine ⟨isLimited, ?_, previous.remoteKeys, previous.sorted.imp ne_of_lt, count, ?_⟩
      · exact fun key => (resumed_cases query store previous key).imp id fun passed => passed.2.2
      · intro key member
        obtain ⟨document, found⟩ := remoteKeys_match intact looked (reuses.2.2 isLimited documents looked) key member
        refine ⟨document, by rw [resumed_remote query store member, found], ?_⟩
        intro other left missing known
        rcases resumed_cases query store previous other with same | ⟨passed, apart, _⟩
        · cases missing.symm.trans (same.trans known)
        · exact (resumable reuses other left passed apart known).2.2 key member document found
    · left
      funext key
      rcases resumed_cases query store previous key with same | ⟨passed, apart, nothing⟩
      · exact same
      · cases known : matching query store key with
        | none => exact nothing
        | some left => exact absurd ⟨key, left, passed, apart, known⟩ skips

theorem executeQuery_lists (intact : Intact store) (query : Query κ δ ν) :
    ∃ docs, store.executeQuery query .none = some docs ∧ Lists query docs (matching query store) := by
  obtain ⟨docs, executed, lists | ⟨reuses, _⟩⟩ := executeQuery_cases intact query .none
  · exact ⟨docs, executed, lists⟩
  · exact absurd rfl reuses.2.1

end Runs

end FireChat.Core.Proofs
