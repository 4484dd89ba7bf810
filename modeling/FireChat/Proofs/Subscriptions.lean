import FireChat.Proofs.Listening
import FireChat.Subscription

/-! What the app sees of the core. The events of a listener reach its closure as
snapshots of one query result, each of them in the order of its timestamps. -/

namespace FireChat

open Core.Proofs

variable {δ : Type} {dictionary : δ → Fields} {path : Path}

/-- The data has the time that the query orders by. -/
def Stamped (dictionary : δ → Fields) (document : Core.Document DocumentKey δ) : Prop :=
  ((dictionary document.data).timestamp? "timestamp").isSome

theorem Fields.lookup_of_timestamp? {fields : Fields} {key : String} {time : Timestamp} (found : fields.timestamp? key = some time) :
    fields.lookup key = some (.timestamp time) := by
  unfold Fields.timestamp? at found
  split at found
  next held => cases found; exact held
  next => cases found

theorem query_path {document : Core.Document DocumentKey δ} (fits : (Service.query dictionary path).matches document) :
    document.key.path = path := by
  simp only [Core.Query.matches, Service.query, Bool.and_eq_true, decide_eq_true_eq] at fits
  exact fits.1.1.1

/-- In one collection a document's id is as good as its key. -/
theorem read_tells (first second : DocumentKey × δ) (left : first.1.path = path) (right : second.1.path = path) :
    (QueryDocumentSnapshot.read dictionary first).documentID = (QueryDocumentSnapshot.read dictionary second).documentID ↔
      first.1 = second.1 := by
  obtain ⟨⟨firstPath, firstId⟩, _⟩ := first
  obtain ⟨⟨secondPath, secondId⟩, _⟩ := second
  simp_all [QueryDocumentSnapshot.read]

variable [LinearOrder DocumentKey]

/-- What a view of the app's query may hold. -/
abbrev Listed (dictionary : δ → Fields) (path : Path) (document : Core.Document DocumentKey δ) : Prop :=
  (Service.query dictionary path).matches document ∧ Stamped dictionary document

/-- Documents that the query puts in order have their timestamps in order. -/
theorem timestamps_le {first second : Core.Document DocumentKey δ} {early late : Timestamp}
    (left : (dictionary first.data).timestamp? "timestamp" = some early)
    (right : (dictionary second.data).timestamp? "timestamp" = some late)
    (below : (Service.query dictionary path).comparator first second = .lt) : early ≤ late := by
  have orders : (Service.query dictionary path).comparator first second =
      (compare (some (Value.timestamp early)) (some (Value.timestamp late))).then
        ((compare first.key second.key).then .eq) := by
    rw [← Fields.lookup_of_timestamp? left, ← Fields.lookup_of_timestamp? right]
    rfl
  rw [orders] at below
  have ranked : Value.timestamp early ≤ Value.timestamp late := by
    apply compare_le_iff_le.mp
    intro above
    have swapped : compare (some (Value.timestamp early)) (some (Value.timestamp late)) = .gt := above
    rw [swapped] at below
    cases below
  exact Sum.Lex.inl_le_inl_iff.mp ranked

variable {documents : Core.DocumentSet (Service.query dictionary path)} {event : Core.ViewSnapshot (Service.query dictionary path)}

theorem contents_path (listed : Holding (Listed dictionary path) documents) :
    ∀ content ∈ (contents documents).list, content.1.path = path := by
  intro content member
  obtain ⟨document, held, rfl⟩ := List.mem_map.mp member
  exact query_path (listed document held).1

/-- A query result in the order of the query is in the order of its timestamps. -/
theorem ordered_of_listed (listed : Holding (Listed dictionary path) documents) {result : QueryResult}
    (shows : result.list = (contents documents).list.map (QueryDocumentSnapshot.read dictionary)) : result.Ordered := by
  have list : result.list = documents.list.map fun document => QueryDocumentSnapshot.read dictionary document.content :=
    shows.trans (List.map_map ..)
  refine ⟨?_, ?_⟩
  · intro document member
    rw [list] at member
    obtain ⟨held, inside, rfl⟩ := List.mem_map.mp member
    exact (listed held inside).2
  · rw [list, List.filterMap_map, List.pairwise_filterMap]
    refine documents.sorted.imp ?_
    intro first second below early left late right
    exact timestamps_le left right below

/-- One event takes the query result to the documents of the event. -/
theorem documentChanges_run (faithful : Faithful event) (listed : Holding (Listed dictionary path) event.documents)
    (before : ∀ content ∈ (contents event.oldDocuments).list, content.1.path = path) {result : QueryResult}
    (shows : result.list = (contents event.oldDocuments).list.map (QueryDocumentSnapshot.read dictionary)) :
    ∃ changes, documentChanges dictionary event = some changes ∧
      ∃ next : QueryResult, Transition.run Keyed.Items.apply result changes = some next ∧
        next.list = (contents event.documents).list.map (QueryDocumentSnapshot.read dictionary) := by
  obtain ⟨reported, told, ran⟩ := forEachChange_spec faithful false (by simp)
  have fits : ∀ change ∈ reported.map Core.DocumentChange.shown, change.item.1.path = path := by
    intro change member
    obtain ⟨documentChange, inside, rfl⟩ := List.mem_map.mp member
    obtain ⟨source, listedChange, same, _⟩ := forEachChange_documents told documentChange inside
    obtain ⟨document, held, key⟩ := faithful.change_key listedChange
    show documentChange.document.document.key.path = path
    rw [same, ← key]
    rcases held with old | new
    · exact before document.content (List.mem_map_of_mem old)
    · exact query_path (listed document new).1
  obtain ⟨next, relabelled, list⟩ := Keyed.Items.run_relabel read_tells before fits shows ran
  refine ⟨_, Option.map_eq_some_iff.mpr ⟨reported, told, rfl⟩, next, ?_, list⟩
  rw [List.map_map] at relabelled
  exact relabelled

/-- The closure's snapshots for the events of a listener, decoded at any times. -/
def Hands (dictionary : δ → Fields) (received : List (Core.ViewSnapshot (Service.query dictionary path)))
    (snapshots : List (List Delivered)) : Prop :=
  received.map (documentChanges dictionary) = snapshots.map fun changes => some (changes.map Delivered.change)

/-- The events of a listener are snapshots of one query result. -/
theorem hands_run {received : List (Core.ViewSnapshot (Service.query dictionary path))} {snapshots : List (List Delivered)}
    (shown : Shown (fun _ after => Holding (Listed dictionary path) after) received) (hands : Hands dictionary received snapshots) :
    ∃ items, seen received = some items ∧ (∀ content ∈ items.list, content.1.path = path) ∧
      ∃ result, Transition.run QueryResult.snapshot Keyed.Items.empty snapshots = some result ∧
        result.list = items.list.map (QueryDocumentSnapshot.read dictionary) := by
  induction received using List.reverseRecOn generalizing snapshots with
  | nil =>
    cases List.map_eq_nil_iff.mp hands.symm
    exact ⟨_, seen_nil, by simp [Keyed.Items.empty], Keyed.Items.empty, rfl, rfl⟩
  | append_singleton received event ih =>
    obtain ⟨earlier, listed, faithful, before⟩ := shown.last
    unfold Hands at hands
    rw [List.map_append, List.map_singleton] at hands
    obtain ⟨past, last, rfl, handed, final⟩ := List.map_eq_append_iff.mp hands.symm
    obtain ⟨changes, rfl, decoded⟩ := List.map_eq_singleton_iff.mp final
    obtain ⟨items, seen, path, result, ran, list⟩ := ih earlier handed.symm
    cases seen.symm.trans before
    obtain ⟨told, handedOver, next, applied, shows⟩ := documentChanges_run faithful listed path list
    refine ⟨_, seen_concat before faithful, contents_path listed, next, ?_, shows⟩
    cases handedOver.symm.trans decoded.symm
    exact Transition.run_concat.mpr ⟨result, ran, QueryResult.snapshot_eq_some.mpr ⟨applied, ordered_of_listed listed shows⟩⟩

end FireChat
