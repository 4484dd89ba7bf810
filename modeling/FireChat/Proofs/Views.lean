import FireChat.Proofs.ChangeSets

/-! Computing a view's changes. The loop keeps the change set equal to the
difference between the view and the documents built so far; dropping documents
to the limit keeps it too. -/

namespace FireChat.Core.Proofs

variable {κ δ ν : Type} {query : Query κ δ ν}

/-- A batch offers the documents in it that match. -/
theorem newDoc_eq {maybe : MaybeDocument κ δ} {newDoc : Document κ δ} (offered : newDoc? query maybe = some newDoc) :
    maybe = .document newDoc ∧ query.matches newDoc := by
  cases maybe with
  | noDocument => cases offered
  | document known =>
    simp only [newDoc?] at offered
    split at offered
    next fits => cases offered; exact ⟨rfl, fits⟩
    next => cases offered

theorem newDoc_key {maybe : MaybeDocument κ δ} {newDoc : Document κ δ} (offered : newDoc? query maybe = some newDoc) :
    newDoc.key = maybe.key := by
  obtain ⟨rfl, _⟩ := newDoc_eq offered
  rfl

/-- The documents that remain when a limit drops a number of them. -/
def remaining (query : Query κ δ ν) (count : Nat) (documents : List (Document κ δ)) : List (Document κ δ) :=
  if query.hasLimitToFirst then documents.take (documents.length - count) else documents.drop count

/-- The documents that a limit leaves. -/
def limited (query : Query κ δ ν) (documents : List (Document κ δ)) : List (Document κ δ) :=
  if query.limitType = .none then documents else remaining query (documents.length - query.limit) documents

theorem limited_sublist (query : Query κ δ ν) (documents : List (Document κ δ)) : (limited query documents).Sublist documents := by
  unfold limited remaining
  split
  · exact List.Sublist.refl _
  · split
    · exact List.take_sublist _ _
    · exact List.drop_sublist _ _

variable [LinearOrder κ] [Ord ν]

/-- The mutated keys are those of the documents with local mutations. -/
def Tracked (documents : DocumentSet query) (mutatedKeys : Finset κ) : Prop :=
  ∀ key, key ∈ mutatedKeys ↔ ∃ document, documents.find key = some document ∧ document.hasLocalMutations

theorem find_key {documents : DocumentSet query} {key : κ} {document : Document κ δ}
    (found : documents.find key = some document) : document.key = key :=
  (Keyed.Items.find_eq_some.mp found).2

theorem find_withoutDocument (changes : ViewDocumentChanges query) (gone key : κ) :
    (changes.withoutDocument gone).documentSet.find key = if gone = key then none else changes.documentSet.find key :=
  Keyed.Sorted.find_erase changes.documentSet gone key

theorem tracked_withoutDocument {changes : ViewDocumentChanges query}
    (tracked : Tracked changes.documentSet changes.mutatedKeys) (gone : κ) :
    Tracked (changes.withoutDocument gone).documentSet (changes.withoutDocument gone).mutatedKeys := by
  intro key
  have others := tracked key
  rw [find_withoutDocument]
  simp only [ViewDocumentChanges.withoutDocument, Finset.mem_erase]
  by_cases same : gone = key
  · simp [same]
  · simp [same, Ne.symm same, others]

/-- The document that a limit drops next, and the ones left by it. -/
theorem outermost_spec {changes : ViewDocumentChanges query} (held : 0 < changes.documentSet.list.length) :
    ∃ oldDoc, changes.outermost = some oldDoc ∧ oldDoc ∈ changes.documentSet.list ∧
      (changes.withoutDocument oldDoc.key).documentSet.list.length + 1 = changes.documentSet.list.length ∧
      ∀ count, remaining query count (changes.withoutDocument oldDoc.key).documentSet.list =
        remaining query (count + 1) changes.documentSet.list := by
  unfold ViewDocumentChanges.outermost remaining
  by_cases first : query.hasLimitToFirst
  · obtain empty | ⟨front, last, list⟩ := List.eq_nil_or_concat' changes.documentSet.list
    · simp [empty] at held
    · have left := Keyed.Sorted.erase_last list
      refine ⟨last, by simp [first, list], by simp [list], by simp [ViewDocumentChanges.withoutDocument, left, list], ?_⟩
      intro count
      simp only [first, if_true, ViewDocumentChanges.withoutDocument, left, list, List.length_append, List.length_singleton,
        Nat.add_sub_add_right]
      rw [List.take_append_of_le_length (by omega)]
  · cases list : changes.documentSet.list with
    | nil => simp [list] at held
    | cons head back =>
      have left := Keyed.Sorted.erase_first list
      refine ⟨head, by simp [first], by simp, by simp [ViewDocumentChanges.withoutDocument, left], ?_⟩
      intro count
      simp [first, ViewDocumentChanges.withoutDocument, left]

theorem dropDocuments_spec {base : DocumentSet query} {changes : ViewDocumentChanges query} {count : Nat}
    (difference : Difference base changes.documentSet changes.changeSet)
    (tracked : Tracked changes.documentSet changes.mutatedKeys) (enough : count ≤ changes.documentSet.list.length) :
    ∃ dropped, ViewDocumentChanges.dropDocuments count changes = some dropped ∧
      Difference base dropped.documentSet dropped.changeSet ∧ Tracked dropped.documentSet dropped.mutatedKeys ∧
      dropped.needsRefill = changes.needsRefill ∧
      dropped.documentSet.list = remaining query count changes.documentSet.list := by
  induction count generalizing changes with
  | zero => exact ⟨changes, rfl, difference, tracked, rfl, by simp [remaining]⟩
  | succ count ih =>
    obtain ⟨oldDoc, outermost, member, shorter, rest⟩ := outermost_spec (by omega : 0 < changes.documentSet.list.length)
    have found : changes.documentSet.find oldDoc.key = some oldDoc := Keyed.Items.find_eq_some.mpr ⟨member, rfl⟩
    obtain ⟨changeSet, added, difference⟩ := @Difference.addChange _ _ _ _ _ _ _ _
      (changes.withoutDocument oldDoc.key).documentSet _ ⟨oldDoc, .removed⟩ difference
      (by rw [find_withoutDocument, if_pos rfl, found]; exact ⟨rfl, rfl⟩)
      (by intro key different; rw [find_withoutDocument, if_neg (Ne.symm different)])
    obtain ⟨dropped, ran, outcome⟩ :=
      @ih { changes.withoutDocument oldDoc.key with changeSet := changeSet } difference
        (tracked_withoutDocument tracked oldDoc.key) (by simp only; omega)
    refine ⟨dropped, ?_, outcome.1, outcome.2.1, outcome.2.2.1, outcome.2.2.2.trans (rest count)⟩
    simp only [ViewDocumentChanges.dropDocuments, outermost, Option.bind_some, added]
    exact ran

section Insertion

variable [Std.TransOrd ν]

theorem find_withDocument (changes : ViewDocumentChanges query) (newDoc : Document κ δ) (key : κ) :
    (changes.withDocument newDoc).documentSet.find key = if newDoc.key = key then some newDoc else changes.documentSet.find key :=
  Keyed.Sorted.find_insert changes.documentSet newDoc key

theorem tracked_withDocument {changes : ViewDocumentChanges query} (tracked : Tracked changes.documentSet changes.mutatedKeys)
    (newDoc : Document κ δ) : Tracked (changes.withDocument newDoc).documentSet (changes.withDocument newDoc).mutatedKeys := by
  intro key
  have others := tracked key
  rw [find_withDocument]
  simp only [ViewDocumentChanges.withDocument]
  by_cases same : newDoc.key = key
  · subst same
    by_cases mutated : newDoc.hasLocalMutations <;> simp [mutated]
  · have different : key ≠ newDoc.key := Ne.symm same
    by_cases mutated : newDoc.hasLocalMutations <;> simp [mutated, same, different, others]

theorem applied_spec {changes : ViewDocumentChanges query} {key : κ} {newDoc : Option (Document κ δ)}
    (tracked : Tracked changes.documentSet changes.mutatedKeys) (own : ∀ document, newDoc = some document → document.key = key) :
    (∀ other, (changes.applied key newDoc).documentSet.find other = if key = other then newDoc else changes.documentSet.find other) ∧
      Tracked (changes.applied key newDoc).documentSet (changes.applied key newDoc).mutatedKeys := by
  cases newDoc with
  | none => exact ⟨find_withoutDocument changes key, tracked_withoutDocument tracked key⟩
  | some document =>
    have same := own document rfl
    subst same
    exact ⟨find_withDocument changes document, tracked_withDocument tracked document⟩

end Insertion

theorem find?_concat {past : List (MaybeDocument κ δ)} {maybe : MaybeDocument κ δ}
    (fresh : maybe.key ∉ past.map MaybeDocument.key) (key : κ) :
    (past ++ [maybe]).find? (fun other => other.key = key) =
      if maybe.key = key then some maybe else past.find? fun other => other.key = key := by
  rw [List.find?_append]
  split
  next same =>
    have absent : past.find? (fun other => other.key = key) = none := by
      refine List.find?_eq_none.mpr ?_
      intro other member
      have different : other.key ≠ key := fun keyed => fresh (same.trans keyed.symm ▸ List.mem_map_of_mem member)
      simpa using different
    simp [absent, same]
  next different => simp [different]

variable [DecidableEq δ]

/-- A calculated change leads from the old document to the new one. -/
theorem calculateChange_turns {view : View query} {oldDocuments : DocumentSet query} {key : κ}
    {newDoc : Option (Document κ δ)} {change : DocumentViewChange κ δ} {refill : Bool}
    (own : ∀ document, newDoc = some document → document.key = key)
    (calculated : view.calculateChange oldDocuments key newDoc = some (change, refill)) :
    change.document.key = key ∧ Turns (oldDocuments.find key) newDoc (some change) := by
  unfold View.calculateChange at calculated
  cases held : oldDocuments.find key with
  | none =>
    cases offered : newDoc with
    | none => simp [held, offered] at calculated
    | some document =>
      simp only [held, offered, Option.some.injEq, Prod.mk.injEq] at calculated
      obtain ⟨rfl, _⟩ := calculated
      exact ⟨own document offered, rfl, rfl⟩
  | some oldDoc =>
    cases offered : newDoc with
    | none =>
      simp only [held, offered, Option.some.injEq, Prod.mk.injEq] at calculated
      obtain ⟨rfl, _⟩ := calculated
      exact ⟨find_key held, rfl, rfl⟩
    | some document =>
      simp only [held, offered] at calculated
      split at calculated
      next different =>
        split at calculated
        next => cases calculated
        next =>
          cases calculated
          exact ⟨own document offered, rfl, rfl⟩
      next same =>
        split at calculated
        next =>
          cases calculated
          exact ⟨own document offered, ⟨oldDoc, rfl, not_not.mp same⟩, rfl⟩
        next => cases calculated

/-- What one entry leaves under its key. -/
def settled (view : View query) (oldDocuments : DocumentSet query) (maybe : MaybeDocument κ δ) : Option (Document κ δ) :=
  match view.calculateChange oldDocuments maybe.key (newDoc? query maybe) with
  | none => oldDocuments.find maybe.key
  | some _ => newDoc? query maybe

/-- Whether one entry calls for a refill. -/
def asksRefill (view : View query) (oldDocuments : DocumentSet query) (maybe : MaybeDocument κ δ) : Bool :=
  (view.calculateChange oldDocuments maybe.key (newDoc? query maybe)).any Prod.snd

/-- A batch asks for a refill only where it takes a document out of a full limit. -/
theorem asksRefill_eq_false {view : View query} {documents : DocumentSet query} (last : lastDocInLimit documents = none)
    (first : firstDocInLimit documents = none) (maybe : MaybeDocument κ δ) : asksRefill view documents maybe = false := by
  unfold asksRefill
  cases calculated : view.calculateChange documents maybe.key (newDoc? query maybe) with
  | none => rfl
  | some outcome =>
    obtain ⟨change, refill⟩ := outcome
    unfold View.calculateChange View.outsideLimit at calculated
    simp only [last, first, Option.any_none, Option.isSome_none, Bool.or_false] at calculated
    repeat' split at calculated
    all_goals cases calculated
    all_goals rfl

theorem asksRefill_unlimited {view : View query} (unlimited : query.limitType = .none) (documents : DocumentSet query) (maybe : MaybeDocument κ δ) :
    asksRefill view documents maybe = false := by
  apply asksRefill_eq_false
  · simp [lastDocInLimit, Query.hasLimitToFirst, unlimited]
  · simp [firstDocInLimit, Query.hasLimitToLast, unlimited]

theorem asksRefill_empty {view : View query} {documents : DocumentSet query} (empty : documents.list = []) (maybe : MaybeDocument κ δ) :
    asksRefill view documents maybe = false := by
  apply asksRefill_eq_false
  · simp [lastDocInLimit, empty]
  · simp [firstDocInLimit, empty]

/-- What holds of the changes built from the entries seen so far. -/
structure Building (view : View query) (base started : DocumentSet query) (past : List (MaybeDocument κ δ))
    (changes : ViewDocumentChanges query) : Prop where
  difference : Difference base changes.documentSet changes.changeSet
  tracked : Tracked changes.documentSet changes.mutatedKeys
  found : ∀ key, changes.documentSet.find key =
    match past.find? fun maybe => maybe.key = key with
    | some maybe => settled view started maybe
    | none => started.find key
  refill : changes.needsRefill = past.any (asksRefill view started)

/-- The changes after an entry that was not applied, or was and left its document under its own key. -/
theorem Building.concat {view : View query} {base started : DocumentSet query} {past : List (MaybeDocument κ δ)}
    {changes next : ViewDocumentChanges query} {maybe : MaybeDocument κ δ} (building : Building view base started past changes)
    (fresh : maybe.key ∉ past.map MaybeDocument.key) (difference : Difference base next.documentSet next.changeSet)
    (tracked : Tracked next.documentSet next.mutatedKeys)
    (found : ∀ key, next.documentSet.find key =
      if maybe.key = key then settled view started maybe else changes.documentSet.find key)
    (refill : next.needsRefill = (changes.needsRefill || asksRefill view started maybe)) :
    Building view base started (past ++ [maybe]) next := by
  refine ⟨difference, tracked, ?_, ?_⟩
  · intro key
    rw [find?_concat fresh, found key]
    split
    · rfl
    · exact building.found key
  · rw [refill, building.refill, List.any_append]
    simp

theorem Building.untouched {view : View query} {base started : DocumentSet query} {past : List (MaybeDocument κ δ)}
    {changes : ViewDocumentChanges query} (building : Building view base started past changes) {key : κ}
    (fresh : key ∉ past.map MaybeDocument.key) : changes.documentSet.find key = started.find key := by
  have absent : past.find? (fun maybe => maybe.key = key) = none := by
    refine List.find?_eq_none.mpr ?_
    intro maybe member
    have different : maybe.key ≠ key := fun keyed => fresh (keyed ▸ List.mem_map_of_mem member)
    simpa using different
  rw [building.found key, absent]

/-- The outcome of computing a view's changes: the exact difference to the view,
whose documents are the entries' own over those of the start, cut to the limit. -/
structure Computed (view : View query) (started : ViewDocumentChanges query) (docChanges : MaybeDocumentMap κ δ)
    (result : ViewDocumentChanges query) : Prop where
  difference : Difference view.documentSet result.documentSet result.changeSet
  tracked : Tracked result.documentSet result.mutatedKeys
  limited : ∃ looped : DocumentSet query, result.documentSet.list = limited query looped.list ∧
    ∀ key, looped.find key =
      match docChanges.find key with
      | some maybe => settled view started.documentSet maybe
      | none => started.documentSet.find key
  refill : result.needsRefill = docChanges.list.any (asksRefill view started.documentSet)

/-- Every document of a set has a property. -/
def Holding (holds : Document κ δ → Prop) (documents : DocumentSet query) : Prop := ∀ document ∈ documents.list, holds document

/-- Every document that a batch may bring into a view has a property. -/
def Offered (query : Query κ δ ν) (holds : Document κ δ → Prop) (changes : MaybeDocumentMap κ δ) : Prop :=
  ∀ document, MaybeDocument.document document ∈ changes.list → query.matches document → holds document

theorem Computed.holding {view : View query} {started result : ViewDocumentChanges query} {docChanges : MaybeDocumentMap κ δ}
    {holds : Document κ δ → Prop} (computed : Computed view started docChanges result)
    (initial : Holding holds started.documentSet) (offered : Offered query holds docChanges) : Holding holds result.documentSet := by
  obtain ⟨looped, list, found⟩ := computed.limited
  intro document member
  rw [list] at member
  have held := Keyed.Items.find_eq_some.mpr ⟨(limited_sublist query looped.list).subset member, rfl⟩
  have old : started.documentSet.find document.key = some document → holds document :=
    fun kept => initial document (Keyed.Items.find_eq_some.mp kept).1
  rw [found document.key] at held
  split at held
  next maybe inside =>
    have keyed := Keyed.Items.find_eq_some.mp inside
    unfold settled at held
    split at held
    next => exact old (keyed.2 ▸ held)
    next =>
      obtain ⟨rfl, fits⟩ := newDoc_eq held
      exact offered document keyed.1 fits
  next => exact old held

/-- A batch takes no document away from the query: all of its entries on the query's path match. -/
def Retains (query : Query κ δ ν) (changes : MaybeDocumentMap κ δ) : Prop :=
  ∀ maybe ∈ changes.list, query.path maybe.key → (newDoc? query maybe).isSome

theorem Computed.retains {view : View query} {started result : ViewDocumentChanges query} {docChanges : MaybeDocumentMap κ δ}
    (computed : Computed view started docChanges result) (unlimited : query.limitType = .none) (retains : Retains query docChanges)
    (matching : Holding (fun document => query.matches document) started.documentSet) {key : κ}
    (held : (started.documentSet.find key).isSome) : (result.documentSet.find key).isSome := by
  obtain ⟨looped, list, found⟩ := computed.limited
  rw [FireChat.Core.Proofs.limited, if_pos unlimited] at list
  have same : result.documentSet.find key = looped.find key := congrArg (List.find? _) list
  rw [same, found key]
  split
  next maybe inside =>
    obtain ⟨member, own⟩ := Keyed.Items.find_eq_some.mp inside
    subst own
    unfold settled
    split
    next => exact held
    next =>
      apply retains maybe member
      obtain ⟨document, found⟩ := Option.isSome_iff_exists.mp held
      obtain ⟨inside, own⟩ := Keyed.Items.find_eq_some.mp found
      have fits := matching document inside
      simp only [Query.matches, Bool.and_eq_true] at fits
      rw [← own]
      exact fits.1.1.1
  next => exact held

variable [Std.TransOrd ν]

theorem applyDocument_building {view : View query} {base started : DocumentSet query} {past : List (MaybeDocument κ δ)}
    {changes : ViewDocumentChanges query} {maybe : MaybeDocument κ δ} (building : Building view base started past changes)
    (fresh : maybe.key ∉ past.map MaybeDocument.key) :
    ∃ next, changes.applyDocument view started maybe = some next ∧ Building view base started (past ++ [maybe]) next := by
  have here := building.untouched fresh
  unfold ViewDocumentChanges.applyDocument
  cases calculated : view.calculateChange started maybe.key (newDoc? query maybe) with
  | none =>
    refine ⟨changes, rfl, building.concat fresh building.difference building.tracked ?_ ?_⟩
    · intro key
      split
      next same => simp only [settled, calculated, ← same, here]
      next => rfl
    · simp [asksRefill, calculated]
  | some outcome =>
    obtain ⟨change, refill⟩ := outcome
    have own : ∀ document, newDoc? query maybe = some document → document.key = maybe.key :=
      fun document offered => newDoc_key offered
    obtain ⟨keyed, turns⟩ := calculateChange_turns own calculated
    obtain ⟨placed, tracked⟩ := applied_spec building.tracked own
    obtain ⟨changeSet, added, difference⟩ := building.difference.addChange
      (by rw [keyed, placed, if_pos rfl, here]; exact turns)
      (by intro key different; rw [placed, if_neg fun same => different (same.symm.trans keyed.symm)])
    refine ⟨_, Option.map_eq_some_iff.mpr ⟨changeSet, added, rfl⟩, ?_⟩
    refine building.concat fresh difference tracked ?_ ?_
    · intro key
      simp only [placed, settled, calculated]
    · simp [asksRefill, calculated]

theorem loop_building (view : View query) {base : DocumentSet query} {started : ViewDocumentChanges query}
    (difference : Difference base started.documentSet started.changeSet)
    (tracked : Tracked started.documentSet started.mutatedKeys) (calm : started.needsRefill = false)
    (docChanges : MaybeDocumentMap κ δ) :
    ∃ looped, Transition.run (ViewDocumentChanges.applyDocument view started.documentSet) started docChanges.list = some looped ∧
      Building view base started.documentSet docChanges.list looped := by
  refine Transition.run_total ⟨difference, tracked, fun _ => rfl, calm⟩ ?_
  intro past maybe rest changes split building
  have distinct := docChanges.distinct
  rw [split, List.map_append, List.map_cons, List.nodup_append] at distinct
  have fresh : maybe.key ∉ past.map MaybeDocument.key := fun member => distinct.2.2 maybe.key member maybe.key (by simp) rfl
  exact applyDocument_building building fresh

/-- The only assertion that can fail is that the documents of a refill do not ask for another one. -/
theorem computeDocumentChanges_computed {view : View query} {previousChanges : Option (ViewDocumentChanges query)}
    (difference : Difference view.documentSet (view.start previousChanges).documentSet (view.start previousChanges).changeSet)
    (tracked : Tracked (view.start previousChanges).documentSet (view.start previousChanges).mutatedKeys)
    (docChanges : MaybeDocumentMap κ δ) :
    ∃ result, Computed view (view.start previousChanges) docChanges result ∧
      view.computeDocumentChanges docChanges previousChanges =
        if result.needsRefill ∧ previousChanges.isSome then none else some result := by
  have started : (view.start previousChanges).needsRefill = false := by cases previousChanges <;> rfl
  obtain ⟨looped, ran, building⟩ := loop_building view difference tracked started docChanges
  have dropped : ∃ dropped, looped.dropToLimit = some dropped ∧
      Difference view.documentSet dropped.documentSet dropped.changeSet ∧ Tracked dropped.documentSet dropped.mutatedKeys ∧
      dropped.needsRefill = looped.needsRefill ∧ dropped.documentSet.list = limited query looped.documentSet.list := by
    unfold ViewDocumentChanges.dropToLimit limited
    split
    next => exact ⟨looped, rfl, building.difference, building.tracked, rfl, rfl⟩
    next => exact dropDocuments_spec building.difference building.tracked (Nat.sub_le _ _)
  obtain ⟨dropped, cut, exactly, tracked, refill, list⟩ := dropped
  refine ⟨dropped, ⟨exactly, tracked, ⟨looped.documentSet, list, building.found⟩, refill.trans building.refill⟩, ?_⟩
  unfold View.computeDocumentChanges
  simp only [ran, Option.bind_some, cut]

theorem computeDocumentChanges_first {view : View query} (tracked : Tracked view.documentSet view.mutatedKeys)
    (docChanges : MaybeDocumentMap κ δ) :
    ∃ result, Computed view (view.start none) docChanges result ∧ view.computeDocumentChanges docChanges none = some result := by
  obtain ⟨result, computed, ran⟩ :=
    @computeDocumentChanges_computed _ _ _ query _ _ _ _ view none (Difference.refl view.documentSet) tracked docChanges
  exact ⟨result, computed, by simpa using ran⟩

end FireChat.Core.Proofs
