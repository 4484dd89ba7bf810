import FireChat.Proofs.Emissions
import FireChat.Proofs.LocalQueries

/-! A view and the documents behind it. Whatever arrives, the documents of a view are
those that its query finds, cut to the limit, but for the ones that keep showing a write
until the server has sent it back. -/

namespace FireChat.Core.Proofs

variable {κ δ ν : Type} {query : Query κ δ ν}

section Freshness

/-- A shown document is the known one, or one whose write the server has yet to send back. -/
def Fresh (shown known : Document κ δ) : Prop :=
  shown.content = known.content ∧ shown.hasLocalMutations = known.hasLocalMutations ∨
    shown.key = known.key ∧ shown.hasLocalMutations ∧ known.hasCommittedMutations

def Agrees : Option (Document κ δ) → Option (Document κ δ) → Prop
  | none, none => True
  | some shown, some known => Fresh shown known
  | _, _ => False

variable {shown known other : Document κ δ}

theorem Fresh.congr (fresh : Fresh shown known) (same : face known = face other) : Fresh shown other := by
  obtain ⟨content, state⟩ := Prod.mk.inj same
  have key : known.key = other.key := congrArg Prod.fst content
  simp only [Fresh, Document.hasLocalMutations, Document.hasCommittedMutations] at fresh ⊢
  rw [← content, ← state, ← key]
  exact fresh

theorem Agrees.some_left {found : Option (Document κ δ)} (agrees : Agrees (some shown) found) :
    ∃ known, found = some known ∧ Fresh shown known := by
  cases found with
  | none => cases agrees
  | some known => exact ⟨known, rfl, agrees⟩

theorem newDoc_filter (maybe : MaybeDocument κ δ) : newDoc? query maybe = maybe.document?.filter query.matches := by
  cases maybe with
  | noDocument => rfl
  | document known =>
    simp only [newDoc?, MaybeDocument.document?, Option.filter_some]

end Freshness

theorem limited_first (first : query.hasLimitToFirst) (documents : List (Document κ δ)) :
    limited query documents = documents.take query.limit := by
  have type : query.limitType = .first := by simpa [Query.hasLimitToFirst] using first
  rw [limited, if_neg (by simp [type]), remaining, if_pos first]
  by_cases within : documents.length ≤ query.limit
  · rw [List.take_of_length_le (by omega), List.take_of_length_le within]
  · congr 1
    omega

theorem limited_last (last : query.hasLimitToLast) (documents : List (Document κ δ)) :
    limited query documents = documents.drop (documents.length - query.limit) := by
  have type : query.limitType = .last := by simpa [Query.hasLimitToLast] using last
  rw [limited, if_neg (by simp [type]), remaining, if_neg (by simp [Query.hasLimitToFirst, type])]

variable [LinearOrder κ] [Ord ν]

section Settling

variable {view : View query} {documents : DocumentSet query} {maybe : MaybeDocument κ δ} {refill : MaybeDocumentMap κ δ}
  {next : κ → Option (Document κ δ)}

/-- The documents that a query finds when it is run. -/
def Lists (query : Query κ δ ν) (found : MaybeDocumentMap κ δ) (known : κ → Option (Document κ δ)) : Prop :=
  ∀ key, match found.find key with
    | some maybe => ∃ document other, newDoc? query maybe = some document ∧ known key = some other ∧ face document = face other
    | none => known key = none

/-- Every document shown stands for a known one. -/
def Standing (documents : DocumentSet query) (known : κ → Option (Document κ δ)) : Prop :=
  ∀ key document, documents.find key = some document → ∃ other, known key = some other ∧ Fresh document other

theorem refill_fresh (stands : Standing documents next) (lists : Lists query refill next) (member : maybe ∈ refill.list) :
    ∃ newDoc, newDoc? query maybe = some newDoc ∧ ∀ old, documents.find maybe.key = some old → Fresh old newDoc := by
  have listed : refill.find maybe.key = some maybe := Keyed.Items.find_eq_some.mpr ⟨member, rfl⟩
  have entry := lists maybe.key
  rw [listed] at entry
  obtain ⟨document, other, offered, known, same⟩ := entry
  refine ⟨document, offered, ?_⟩
  intro old held
  obtain ⟨another, found, fresh⟩ := stands maybe.key old held
  cases known.symm.trans found
  exact fresh.congr same.symm

variable [DecidableEq δ]

theorem settled_agrees
    (tracks : ∀ old newDoc, documents.find maybe.key = some old → newDoc? query maybe = some newDoc →
      (maybe.key ∈ view.mutatedKeys ↔ old.hasLocalMutations) ∨ Fresh old newDoc) :
    Agrees (settled view documents maybe) (newDoc? query maybe) := by
  have itself : ∀ newDoc : Document κ δ, Agrees (some newDoc) (some newDoc) := fun _ => .inl ⟨rfl, rfl⟩
  unfold settled View.calculateChange
  cases held : documents.find maybe.key with
  | none =>
    cases offered : newDoc? query maybe with
    | none => trivial
    | some newDoc => exact itself newDoc
  | some old =>
    cases offered : newDoc? query maybe with
    | none => trivial
    | some newDoc =>
      have keys : old.key = newDoc.key := (find_key held).trans (newDoc_key offered).symm
      simp only
      by_cases different : old.data ≠ newDoc.data
      · rw [if_pos different]
        by_cases waits : shouldWaitForSyncedDocument newDoc old
        · simp only [waits, if_true]
          simp only [shouldWaitForSyncedDocument, Bool.and_eq_true] at waits
          exact .inr ⟨keys, waits.1.1, waits.1.2⟩
        · simp only [waits]
          exact itself newDoc
      · rw [if_neg different]
        split
        next unchanged =>
          -- Nothing is reported, so the old document stays with its old state.
          have content : old.content = newDoc.content := Prod.ext keys (not_not.mp different)
          rcases tracks old newDoc held offered with mutated | fresh
          · split at unchanged
            next => cases unchanged
            next same =>
              have equal := not_not.mp same
              simp only [mutated] at equal
              cases waiting : old.hasLocalMutations with
              | false =>
                rw [waiting] at equal
                simp only [Bool.false_eq_true, decide_false, Bool.false_and, Bool.or_false] at equal
                exact .inl ⟨content, waiting.trans equal⟩
              | true =>
                rw [waiting] at equal
                simp only [decide_true, Bool.true_and] at equal
                rcases Bool.or_eq_true_iff.mp equal.symm with mine | committed
                · exact .inl ⟨content, waiting.trans mine.symm⟩
                · exact .inr ⟨keys, waiting, committed⟩
          · exact fresh
        next => exact itself newDoc

/-- An entry that asks for no refill leaves a document of a full limit inside it. -/
theorem settled_inside (calm : asksRefill view documents maybe = false) {old : Document κ δ}
    (held : documents.find maybe.key = some old) (full : (lastDocInLimit documents).isSome ∨ (firstDocInLimit documents).isSome) :
    ∃ document, settled view documents maybe = some document ∧
      (document.content = old.content ∨ View.outsideLimit documents document = false) := by
  unfold asksRefill at calm
  unfold settled
  cases calculated : view.calculateChange documents maybe.key (newDoc? query maybe) with
  | none => exact ⟨old, held, .inl rfl⟩
  | some outcome =>
    obtain ⟨change, refill⟩ := outcome
    have quiet : refill = false := by simpa [calculated] using calm
    subst quiet
    cases offered : newDoc? query maybe with
    | none =>
      simp only [View.calculateChange, held, offered, Option.some.injEq, Prod.mk.injEq] at calculated
      rcases full with last | first
      · simp [last] at calculated
      · simp [first] at calculated
    | some newDoc =>
      have keys : newDoc.key = old.key := (newDoc_key offered).trans (find_key held).symm
      refine ⟨newDoc, rfl, ?_⟩
      simp only [View.calculateChange, held, offered] at calculated
      split at calculated
      next =>
        split at calculated
        next => cases calculated
        next =>
          obtain ⟨_, inside⟩ := Prod.mk.inj (Option.some.inj calculated)
          exact .inr inside
      next same => exact .inl (Prod.ext keys (not_not.mp same).symm)

/-- Where the old document already stands for the new one, the entry asks for no refill. -/
theorem asksRefill_fresh {newDoc : Document κ δ} (offered : newDoc? query maybe = some newDoc)
    (fresh : ∀ old, documents.find maybe.key = some old → Fresh old newDoc) : asksRefill view documents maybe = false := by
  unfold asksRefill View.calculateChange
  cases held : documents.find maybe.key with
  | none => simp [offered]
  | some old =>
    simp only [offered]
    split
    next different =>
      rcases fresh old held with ⟨content, _⟩ | ⟨_, mine, committed⟩
      · exact absurd (congrArg Prod.snd content) different
      · have waits : shouldWaitForSyncedDocument newDoc old := by
          have state : newDoc.state = .committedMutations := by simpa [Document.hasCommittedMutations] using committed
          have sent : newDoc.hasLocalMutations = false := by simp [Document.hasLocalMutations, state]
          simp [shouldWaitForSyncedDocument, mine, committed, sent]
        simp [waits]
    next =>
      split
      · rfl
      · rfl

theorem agrees_of_lists {found : MaybeDocumentMap κ δ} {known : κ → Option (Document κ δ)} (lists : Lists query found known) {key : κ}
    (listed : found.find key = some maybe)
    (stands : ∀ old newDoc, documents.find key = some old → newDoc? query maybe = some newDoc →
      (key ∈ view.mutatedKeys ↔ old.hasLocalMutations) ∨ Fresh old newDoc) :
    Agrees (settled view documents maybe) (known key) := by
  have keyed := (Keyed.Items.find_eq_some.mp listed).2
  subst keyed
  have entry := lists maybe.key
  rw [listed] at entry
  obtain ⟨document, other, offered, same, equal⟩ := entry
  have agrees := settled_agrees stands
  rw [offered] at agrees
  cases left : settled view documents maybe with
  | none =>
    rw [left] at agrees
    cases agrees
  | some item =>
    rw [left] at agrees
    rw [same]
    exact Fresh.congr agrees equal

theorem refill_calm (stands : Standing documents next) (lists : Lists query refill next) :
    refill.list.any (asksRefill view documents) = false := by
  rw [List.any_eq_false]
  intro maybe member
  obtain ⟨newDoc, offered, fresh⟩ := refill_fresh stands lists member
  simp [asksRefill_fresh offered fresh]

/-- The documents of a view are those known for its query, cut to the limit. -/
def Backed (documents : DocumentSet query) (known : κ → Option (Document κ δ)) : Prop :=
  ∃ full : DocumentSet query, documents.list = limited query full.list ∧ ∀ key, Agrees (full.find key) (known key)

theorem refill_backed {first final : ViewDocumentChanges query} (stands : Standing first.documentSet next)
    (lists : Lists query refill next) (computed : Computed view (view.start (some first)) refill final) :
    Backed final.documentSet next := by
  obtain ⟨looped, list, found⟩ := computed.limited
  refine ⟨looped, list, ?_⟩
  intro key
  rw [found key]
  cases listed : refill.find key with
  | some maybe =>
    obtain ⟨member, keyed⟩ := Keyed.Items.find_eq_some.mp listed
    subst keyed
    apply agrees_of_lists lists listed
    intro old newDoc held offered
    obtain ⟨document, same, fresh⟩ := refill_fresh stands lists member
    cases same.symm.trans offered
    exact .inr (fresh old held)
  | none =>
    have entry := lists key
    rw [listed] at entry
    rw [entry]
    cases held : first.documentSet.find key with
    | none =>
      simp only [View.start, held]
      trivial
    | some document =>
      obtain ⟨other, known, _⟩ := stands key document held
      rw [entry] at known
      cases known

end Settling

variable [Std.TransOrd ν]

section Bounds

/-- The part of the order that a full limit covers. What lies outside it cannot matter. -/
structure Bound (documents full : DocumentSet query) (within : Document κ δ → Bool) : Prop where
  isSome : (lastDocInLimit documents).isSome ∨ (firstDocInLimit documents).isSome
  shown : ∀ document ∈ documents.list, within document
  hidden : ∀ document ∈ full.list, document ∉ documents.list → within document = false
  content : ∀ {first second : Document κ δ}, first.content = second.content → within first = within second
  inside : ∀ {document}, View.outsideLimit documents document = false → within document
  decides : ∀ {small large : DocumentSet query}, (∀ item, within item → (item ∈ small.list ↔ item ∈ large.list)) →
    documents.list.length ≤ (small.list.filter within).length → limited query small.list = limited query large.list

theorem bound_first (first : query.hasLimitToFirst) {documents full : DocumentSet query} (cut : documents.list = limited query full.list)
    (more : query.limit < full.list.length) (positive : 0 < query.limit) :
    ∃ within, Bound documents full within := by
  have sorted := full.sorted
  rw [limited_first first] at cut
  have length : documents.list.length = query.limit := by rw [cut, List.length_take_of_le (by omega)]
  obtain nothing | ⟨front, last, list⟩ := List.eq_nil_or_concat' documents.list
  · rw [nothing, List.length_nil] at length
    omega
  rw [← List.take_append_drop query.limit full.list, ← cut, List.pairwise_append] at sorted
  have held : lastDocInLimit documents = some last := by
    rw [lastDocInLimit, if_pos ⟨first, length⟩, list, List.getLast?_concat]
  refine ⟨fun document => (query.comparator document last).isLE, ?_⟩
  constructor
  · exact .inl (by rw [held]; rfl)
  · intro document member
    have ordered := documents.sorted
    rw [list, List.pairwise_append] at ordered
    rw [list] at member
    rcases List.mem_append.mp member with early | final
    · have below := ordered.2.2 document early last (List.mem_singleton_self _)
      simp only [below]
      rfl
    · cases List.mem_singleton.mp final
      exact Std.ReflCmp.isLE_rfl
  · intro document member absent
    rw [← List.take_append_drop query.limit full.list, ← cut] at member
    have later := (List.mem_append.mp member).resolve_left absent
    have above := Std.OrientedCmp.gt_of_lt (sorted.2.2 last (by rw [list]; exact List.mem_concat_self) document later)
    simp only [above]
    rfl
  · intro a b same
    rw [query.comparator_congr same rfl]
  · intro document inside
    simp only [View.outsideLimit, held, Option.any_some, Bool.or_eq_false_iff, decide_eq_false_iff_not] at inside
    exact Ordering.isLE_iff_ne_gt.mpr inside.1
  · intro small large same enough
    rw [limited_first first, limited_first first]
    refine Keyed.Sorted.take_congr ?_ same (length ▸ enough)
    intro a b below inside
    exact Std.TransCmp.isLE_trans (by rw [below]; rfl) inside

theorem bound_last (last : query.hasLimitToLast) {documents full : DocumentSet query} (cut : documents.list = limited query full.list)
    (more : query.limit < full.list.length) (positive : 0 < query.limit) :
    ∃ within, Bound documents full within := by
  have sorted := full.sorted
  rw [limited_last last] at cut
  have length : documents.list.length = query.limit := by
    rw [cut, List.length_drop]
    omega
  cases list : documents.list with
  | nil =>
    rw [list, List.length_nil] at length
    omega
  | cons first back =>
    rw [← List.take_append_drop (full.list.length - query.limit) full.list, ← cut, List.pairwise_append] at sorted
    have held : firstDocInLimit documents = some first := by
      rw [firstDocInLimit, if_pos ⟨last, length⟩, list, List.head?_cons]
    refine ⟨fun document => (query.comparator first document).isLE, ?_⟩
    constructor
    · exact .inr (by rw [held]; rfl)
    · intro document member
      have ordered := documents.sorted
      rw [list, List.pairwise_cons] at ordered
      rw [list] at member
      rcases List.mem_cons.mp member with rfl | later
      · exact Std.ReflCmp.isLE_rfl
      · simp only [ordered.1 document later]
        rfl
    · intro document member absent
      rw [← List.take_append_drop (full.list.length - query.limit) full.list, ← cut] at member
      have early := (List.mem_append.mp member).resolve_right absent
      have above := Std.OrientedCmp.gt_of_lt (sorted.2.2 document early first (by rw [list]; exact List.mem_cons_self))
      simp only [above]
      rfl
    · intro a b same
      rw [query.comparator_congr rfl same]
    · intro document inside
      simp only [View.outsideLimit, held, Option.any_some, Bool.or_eq_false_iff, decide_eq_false_iff_not] at inside
      apply Std.OrientedCmp.isGE_iff_isLE.mp
      cases order : query.comparator document first with
      | lt => exact absurd order inside.2
      | eq => rfl
      | gt => rfl
    · intro small large same enough
      rw [limited_last last, limited_last last]
      refine Keyed.Sorted.drop_congr ?_ same (length ▸ enough)
      intro a b below inside
      exact Std.TransCmp.isLE_trans inside (by rw [below]; rfl)

/-- A view shows everything, or nothing at all, or a part that its limit bounds. -/
theorem bound_exists {documents full : DocumentSet query} (cut : documents.list = limited query full.list) :
    documents = full ∨ (∀ list : List (Document κ δ), limited query list = []) ∨ ∃ within, Bound documents full within := by
  have whole : documents.list = full.list → documents = full := fun same => Keyed.Sorted.ext_mem fun item => by rw [same]
  cases type : query.limitType with
  | none =>
    rw [limited, if_pos type] at cut
    exact .inl (whole cut)
  | first =>
    have first : query.hasLimitToFirst := by simp [Query.hasLimitToFirst, type]
    by_cases more : query.limit < full.list.length
    · by_cases positive : 0 < query.limit
      · exact .inr (.inr (bound_first first cut more positive))
      · have zero : query.limit = 0 := by omega
        exact .inr (.inl fun list => by rw [limited_first first, zero, List.take_zero])
    · rw [limited_first first, List.take_of_length_le (by omega)] at cut
      exact .inl (whole cut)
  | last =>
    have last : query.hasLimitToLast := by simp [Query.hasLimitToLast, type]
    by_cases more : query.limit < full.list.length
    · by_cases positive : 0 < query.limit
      · exact .inr (.inr (bound_last last cut more positive))
      · have zero : query.limit = 0 := by omega
        exact .inr (.inl fun list => by rw [limited_last last, zero, Nat.sub_zero, List.drop_length])
    · have none : full.list.length - query.limit = 0 := by omega
      rw [limited_last last, none, List.drop_zero] at cut
      exact .inl (whole cut)

end Bounds

/-- A batch tells what became of every document that the query may find. -/
def Leads (query : Query κ δ ν) (changes : MaybeDocumentMap κ δ) (known next : κ → Option (Document κ δ)) : Prop :=
  ∀ key, match changes.find key with
    | some maybe => newDoc? query maybe = next key
    | none => next key = known key

variable [DecidableEq δ] {view : View query} {known next : κ → Option (Document κ δ)} {changes refill : MaybeDocumentMap κ δ}

/-- What a batch makes of all known documents at once. -/
theorem exists_led (tracked : Tracked view.documentSet view.mutatedKeys) (leads : Leads query changes known next)
    {full : DocumentSet query} (agrees : ∀ key, Agrees (full.find key) (known key)) :
    ∃ led : DocumentSet query, (∀ key, Agrees (led.find key) (next key)) ∧ ∀ key, led.find key =
      match changes.find key with
      | some maybe => settled view view.documentSet maybe
      | none => full.find key := by
  have settles : ∀ maybe, Agrees (settled view view.documentSet maybe) (newDoc? query maybe) := fun maybe =>
    settled_agrees fun old newDoc held _ => .inl (by
      refine (tracked maybe.key).trans ⟨?_, fun mutated => ⟨old, held, mutated⟩⟩
      rintro ⟨document, found, mutated⟩
      cases held.symm.trans found
      exact mutated)
  have own : ∀ key document, (changes.find key).bind (settled view view.documentSet) = some document → document.key = key := by
    intro key document entered
    obtain ⟨maybe, found, left⟩ := Option.bind_eq_some_iff.mp entered
    have keyed := (Keyed.Items.find_eq_some.mp found).2
    unfold settled at left
    split at left
    next => exact (find_key left).trans keyed
    next => exact (newDoc_key left).trans keyed
  obtain ⟨led, replaced⟩ := full.exists_replaced (changes.list.map MaybeDocument.key) own
  have entries : ∀ key, led.find key =
      match changes.find key with
      | some maybe => settled view view.documentSet maybe
      | none => full.find key := by
    intro key
    rw [replaced key]
    cases found : changes.find key with
    | none => rw [if_neg (Keyed.Sorted.absent_of_find found)]
    | some maybe =>
      rw [if_pos (List.mem_map.mpr ⟨maybe, Keyed.Items.find_eq_some.mp found⟩)]
      rfl
  refine ⟨led, ?_, entries⟩
  intro key
  have batch := leads key
  rw [entries key]
  cases found : changes.find key with
  | none =>
    rw [found] at batch
    rw [batch]
    exact agrees key
  | some maybe =>
    rw [found] at batch
    rw [← batch]
    exact settles maybe

section FirstPass

variable {full looped led : DocumentSet query} {within : Document κ δ → Bool}

omit [Std.TransOrd ν] in
theorem Bound.stays (bound : Bound view.documentSet full within)
    (found : ∀ key, looped.find key =
      match changes.find key with
      | some maybe => settled view view.documentSet maybe
      | none => view.documentSet.find key)
    (calm : ∀ maybe ∈ changes.list, asksRefill view view.documentSet maybe = false) :
    ∀ document ∈ view.documentSet.list, ∃ item, looped.find document.key = some item ∧ within item := by
  intro document member
  have held : view.documentSet.find document.key = some document := Keyed.Items.find_eq_some.mpr ⟨member, rfl⟩
  rw [found document.key]
  cases changed : changes.find document.key with
  | none => exact ⟨document, held, bound.shown document member⟩
  | some maybe =>
    obtain ⟨listed, keyed⟩ := Keyed.Items.find_eq_some.mp changed
    rw [← keyed] at held
    obtain ⟨item, left, content | inside⟩ := settled_inside (calm maybe listed) held bound.isSome
    · exact ⟨item, left, (bound.content content).trans (bound.shown document member)⟩
    · exact ⟨item, left, bound.inside inside⟩

omit [Std.TransOrd ν] in
/-- Inside the limit it makes no difference whether a batch meets the documents of the view or all of them. -/
theorem Bound.looped_of_led (bound : Bound view.documentSet full within)
    (found : ∀ key, looped.find key =
      match changes.find key with
      | some maybe => settled view view.documentSet maybe
      | none => view.documentSet.find key)
    (entries : ∀ key, led.find key =
      match changes.find key with
      | some maybe => settled view view.documentSet maybe
      | none => full.find key)
    {item : Document κ δ} (inside : within item) (member : item ∈ led.list) : looped.find item.key = some item := by
  have held : led.find item.key = some item := Keyed.Items.find_eq_some.mpr ⟨member, rfl⟩
  rw [entries item.key] at held
  rw [found item.key]
  cases changed : changes.find item.key with
  | some maybe =>
    rw [changed] at held
    exact held
  | none =>
    rw [changed] at held
    by_cases visible : item ∈ view.documentSet.list
    · exact Keyed.Items.find_eq_some.mpr ⟨visible, rfl⟩
    · have outside := bound.hidden item (Keyed.Items.find_eq_some.mp held).1 visible
      rw [outside] at inside
      cases inside

end FirstPass

/-- The first pass over a batch leaves documents that stand for known ones, and no others
are missing inside the limit unless it asks for a refill. -/
theorem Computed.backed {first : ViewDocumentChanges query} (computed : Computed view (view.start none) changes first)
    (tracked : Tracked view.documentSet view.mutatedKeys) (backed : Backed view.documentSet known) (leads : Leads query changes known next) :
    Standing first.documentSet next ∧ (first.needsRefill = false → Backed first.documentSet next) := by
  obtain ⟨full, cut, agrees⟩ := backed
  obtain ⟨led, agrees, entries⟩ := exists_led tracked leads agrees
  obtain ⟨looped, list, found⟩ := computed.limited
  have shown : ∀ document ∈ view.documentSet.list, full.find document.key = some document := by
    intro document member
    rw [cut] at member
    exact Keyed.Items.find_eq_some.mpr ⟨(limited_sublist query full.list).subset member, rfl⟩
  have part : ∀ key document, looped.find key = some document → led.find key = some document := by
    intro key document held
    rw [found key] at held
    rw [entries key]
    cases changed : changes.find key with
    | some maybe =>
      rw [changed] at held
      exact held
    | none =>
      rw [changed] at held
      obtain ⟨member, keyed⟩ := Keyed.Items.find_eq_some.mp held
      exact keyed ▸ shown document member
  refine ⟨?_, ?_⟩
  · intro key document held
    obtain ⟨member, keyed⟩ := Keyed.Items.find_eq_some.mp held
    rw [list] at member
    have inside := part key document (Keyed.Items.find_eq_some.mpr ⟨(limited_sublist query looped.list).subset member, keyed⟩)
    have stands := agrees key
    rw [inside] at stands
    exact stands.some_left
  · intro calm
    refine ⟨led, ?_, agrees⟩
    rw [list]
    rw [computed.refill, List.any_eq_false] at calm
    rcases bound_exists cut with whole | nothing | ⟨within, bound⟩
    · have same : looped = led := by
        apply Keyed.Sorted.ext_find
        intro key
        rw [found key, entries key]
        change (match changes.find key with | some maybe => settled view view.documentSet maybe | none => view.documentSet.find key) = _
        rw [whole]
      rw [same]
    · rw [nothing, nothing]
    · have stays := bound.stays found fun maybe listed => Bool.eq_false_iff.mpr (calm maybe listed)
      apply bound.decides
      · intro item inside
        refine ⟨fun member => (Keyed.Items.find_eq_some.mp (part item.key item (Keyed.Items.find_eq_some.mpr ⟨member, rfl⟩))).1, ?_⟩
        exact fun member => (Keyed.Items.find_eq_some.mp (bound.looped_of_led found entries inside member)).1
      · have labels : ∀ key ∈ view.documentSet.list.map Document.key, key ∈ (looped.list.filter within).map Document.key := by
          intro key member
          obtain ⟨document, shown, rfl⟩ := List.mem_map.mp member
          obtain ⟨item, held, inside⟩ := stays document shown
          obtain ⟨listed, keyed⟩ := Keyed.Items.find_eq_some.mp held
          exact List.mem_map.mpr ⟨item, List.mem_filter.mpr ⟨listed, inside⟩, keyed⟩
        have counted := (view.documentSet.distinct.subperm labels).length_le
        rw [List.length_map, List.length_map] at counted
        exact counted

variable {targetChange : Option (TargetChange κ)} {after : View query} {viewChange : ViewChange query}

theorem emit_backed (tracked : Tracked view.documentSet view.mutatedKeys) (backed : Backed view.documentSet known)
    (leads : Leads query changes known next) (lists : Lists query refill next)
    (emitted : view.emit changes refill targetChange = some (after, viewChange)) : Backed after.documentSet next := by
  obtain ⟨first, final, computed, applied, same | ⟨_, again⟩⟩ := emit_computed tracked emitted
  · subst same
    have full : final.needsRefill = false := by
      by_contra needs
      simp [View.applyChanges, needs] at applied
    rw [(applyChanges_emitted computed.difference computed.tracked applied).2]
    exact (computed.backed tracked backed leads).2 full
  · rw [(applyChanges_emitted again.difference again.tracked applied).2]
    exact refill_backed (computed.backed tracked backed leads).1 lists again

theorem backed_calm (tracked : Tracked view.documentSet view.mutatedKeys) (backed : Backed view.documentSet known)
    (leads : Leads query changes known next) (lists : Lists query refill next) {result : ViewDocumentChanges query}
    (ran : view.computeDocumentChanges changes none = some result) :
    refill.list.any (asksRefill view result.documentSet) = false := by
  obtain ⟨first, computed, same⟩ := computeDocumentChanges_first tracked changes
  cases same.symm.trans ran
  exact refill_calm (computed.backed tracked backed leads).1 lists

theorem initializeView_computed {documents : MaybeDocumentMap κ δ} {remoteKeys : Finset κ} {snapshot : ViewSnapshot query}
    (opened : initializeView query documents remoteKeys targetChange = some (after, snapshot)) :
    ∃ computed, Computed (View.init query remoteKeys) ((View.init query remoteKeys).start none) documents computed ∧
      after.documentSet = computed.documentSet := by
  have tracked : Tracked (View.init query remoteKeys).documentSet (View.init query remoteKeys).mutatedKeys := by
    intro key
    simp [View.init, Keyed.Sorted.empty, Keyed.Items.empty, Keyed.Items.find]
  obtain ⟨computed, exactly, ran⟩ := computeDocumentChanges_first tracked documents
  simp only [initializeView, ran, Option.bind_some] at opened
  obtain ⟨⟨view, viewChange⟩, applied, shown⟩ := Option.bind_eq_some_iff.mp opened
  obtain ⟨raised, _, same⟩ := Option.map_eq_some_iff.mp shown
  obtain ⟨rfl, rfl⟩ := Prod.mk.inj same
  exact ⟨computed, exactly, (applyChanges_emitted exactly.difference exactly.tracked applied).2⟩

theorem initializeView_limited {documents : MaybeDocumentMap κ δ} {remoteKeys : Finset κ} {snapshot : ViewSnapshot query}
    (opened : initializeView query documents remoteKeys targetChange = some (after, snapshot)) :
    ∃ looped : DocumentSet query, after.documentSet.list = limited query looped.list ∧
      ∀ key, looped.find key = (documents.find key).bind (newDoc? query) := by
  obtain ⟨computed, exactly, documentSet⟩ := initializeView_computed opened
  rw [documentSet]
  obtain ⟨looped, list, found⟩ := exactly.limited
  refine ⟨looped, list, ?_⟩
  intro key
  rw [found key]
  cases documents.find key with
  | none => rfl
  | some maybe =>
    change settled (View.init query remoteKeys) Keyed.Sorted.empty maybe = newDoc? query maybe
    unfold settled
    cases newDoc? query maybe with
    | none => rfl
    | some newDoc => rfl

end FireChat.Core.Proofs
