import FireChat.Core.View

/-! A change set stands for the difference of two document sets, key by key.
Merging one more change into it composes the two differences. -/

namespace FireChat.Core.Proofs

variable {κ δ ν : Type}

/-- What a change kept for a key says about the documents of that key before and after. -/
def Turns (before after : Option (Document κ δ)) : Option (DocumentViewChange κ δ) → Prop
  | none => after = before
  | some change =>
    match change.type with
    | .removed => before.isSome ∧ after = none
    | .added => before = none ∧ after = some change.document
    | .modified => before.isSome ∧ after = some change.document
    | .metadata => (∃ old, before = some old ∧ old.data = change.document.data) ∧ after = some change.document

theorem Turns.shown {before after : Option (Document κ δ)} {change : DocumentViewChange κ δ}
    (turns : Turns before after (some change)) (kept : change.type ≠ .removed) : after = some change.document := by
  unfold Turns at turns
  cases type : change.type with
  | removed => exact absurd type kept
  | added => simp only [type] at turns; exact turns.2
  | modified => simp only [type] at turns; exact turns.2
  | metadata => simp only [type] at turns; exact turns.2

def leaves (change : DocumentViewChange κ δ) : Option (Document κ δ) :=
  if change.type = .removed then none else some change.document

theorem Turns.after {before after : Option (Document κ δ)} {change : DocumentViewChange κ δ}
    (turns : Turns before after (some change)) : after = leaves change := by
  unfold leaves
  split
  next removed => simp only [Turns, removed] at turns; exact turns.2
  next kept => exact turns.shown kept

theorem Turns.before {before after : Option (Document κ δ)} {change : DocumentViewChange κ δ}
    (turns : Turns before after (some change)) : change.type = .added ↔ before = none := by
  cases type : change.type <;> simp only [Turns, type] at turns
  · simp [Option.isSome_iff_ne_none.mp turns.1]
  · simp [turns.1]
  · simp [Option.isSome_iff_ne_none.mp turns.1]
  · obtain ⟨⟨old, held, _⟩, _⟩ := turns
    simp [held]

theorem Turns.metadata_content {before after : Option (Document κ δ)} {change : DocumentViewChange κ δ}
    (turns : Turns before after (some change)) (type : change.type = .metadata)
    (own : ∀ document, before = some document → document.key = change.document.key) :
    before.map Document.content = after.map Document.content := by
  simp only [Turns, type] at turns
  obtain ⟨⟨old, rfl, same⟩, rfl⟩ := turns
  simp [Document.content, same, own old rfl]

variable [LinearOrder κ]

@[simp] theorem DocumentViewChangeSet.find_empty (key : κ) : (DocumentViewChangeSet.empty : DocumentViewChangeSet κ δ).find key = none := rfl

@[simp] theorem DocumentViewChangeSet.find_insert (changes : DocumentViewChangeSet κ δ) (key other : κ) (change : DocumentViewChange κ δ) :
    (changes.insert key change).find other = if other = key then some change else changes.find other := by
  unfold DocumentViewChangeSet.find DocumentViewChangeSet.insert
  split
  next same => rw [same, AList.lookup_insert]
  next different => exact AList.lookup_insert_ne different

@[simp] theorem DocumentViewChangeSet.find_erase (changes : DocumentViewChangeSet κ δ) (key other : κ) :
    (changes.erase key).find other = if other = key then none else changes.find other := by
  unfold DocumentViewChangeSet.find DocumentViewChangeSet.erase
  split
  next same => rw [same, AList.lookup_erase]
  next different => exact AList.lookup_erase_ne different

def Filed (changes : DocumentViewChangeSet κ δ) : Prop :=
  ∀ key change, changes.find key = some change → change.document.key = key

theorem Filed.insert {changes : DocumentViewChangeSet κ δ} (filed : Filed changes) {key : κ} {change : DocumentViewChange κ δ}
    (own : change.document.key = key) : Filed (changes.insert key change) := by
  intro other found held
  rw [DocumentViewChangeSet.find_insert] at held
  split at held
  next same => cases held; exact own.trans same.symm
  next => exact filed other found held

theorem Filed.erase {changes : DocumentViewChangeSet κ δ} (filed : Filed changes) (key : κ) : Filed (changes.erase key) := by
  intro other found held
  rw [DocumentViewChangeSet.find_erase] at held
  split at held
  next => cases held
  next => exact filed other found held

/-- The change set after one more change: it keeps a change that composes the two, and leaves all other keys alone. -/
structure Merged (changes next : DocumentViewChangeSet κ δ) (key : κ) (before after : Option (Document κ δ)) : Prop where
  filed : Filed next
  turns : Turns before after (next.find key)
  others : ∀ other, other ≠ key → next.find other = changes.find other

theorem Merged.insert {changes : DocumentViewChangeSet κ δ} (filed : Filed changes) {key : κ}
    {before after : Option (Document κ δ)} {change : DocumentViewChange κ δ} (own : change.document.key = key)
    (turns : Turns before after (some change)) : Merged changes (changes.insert key change) key before after := by
  refine ⟨filed.insert own, ?_, ?_⟩
  · simpa using turns
  · intro other different
    simp [different]

theorem Merged.erase {changes : DocumentViewChangeSet κ δ} (filed : Filed changes) {key : κ}
    {before after : Option (Document κ δ)} (turns : Turns before after none) :
    Merged changes (changes.erase key) key before after := by
  refine ⟨filed.erase key, ?_, ?_⟩
  · simpa using turns
  · intro other different
    simp [different]

/-- Two changes of one key merge into the change between the outer documents. The
combinations that fail are those where the second cannot follow the first. -/
theorem addChange_merged {changes : DocumentViewChangeSet κ δ} {change : DocumentViewChange κ δ}
    {before middle after : Option (Document κ δ)} (filed : Filed changes)
    (first : Turns before middle (changes.find change.document.key)) (second : Turns middle after (some change)) :
    ∃ next, changes.addChange change = some next ∧ Merged changes next change.document.key before after := by
  cases held : changes.find change.document.key with
  | none =>
    rw [held] at first
    cases first
    refine ⟨changes.insert change.document.key change, ?_, Merged.insert filed rfl second⟩
    simp [DocumentViewChangeSet.addChange, held]
  | some old =>
    rw [held] at first
    have own := filed change.document.key old held
    have keeps : ∀ kept : DocumentViewChange κ δ, kept.document.key = change.document.key → Turns before after (some kept) →
        changes.addChange change = some (changes.insert change.document.key kept) →
        ∃ next, changes.addChange change = some next ∧ Merged changes next change.document.key before after :=
      fun kept same turns added => ⟨_, added, Merged.insert filed same turns⟩
    obtain ⟨document, type⟩ := change
    obtain ⟨earlier, oldType⟩ := old
    cases oldType with
    | metadata =>
      obtain ⟨⟨original, was, unchanged⟩, now⟩ := first
      have present : before.isSome := by simp [was]
      cases type with
      | added => cases second.1.symm.trans now
      | removed => exact keeps ⟨document, .removed⟩ rfl ⟨present, second.2⟩ (by simp [DocumentViewChangeSet.addChange, held])
      | modified => exact keeps ⟨document, .modified⟩ rfl ⟨present, second.2⟩ (by simp [DocumentViewChangeSet.addChange, held])
      | metadata =>
        obtain ⟨⟨held', between, same⟩, last⟩ := second
        cases between.symm.trans now
        exact keeps ⟨document, .metadata⟩ rfl ⟨⟨original, was, unchanged.trans same⟩, last⟩
          (by simp [DocumentViewChangeSet.addChange, held])
    | added =>
      obtain ⟨absent, now⟩ := first
      cases type with
      | added => cases second.1.symm.trans now
      | removed =>
        refine ⟨changes.erase document.key, ?_, Merged.erase filed (second.2.trans absent.symm)⟩
        simp [DocumentViewChangeSet.addChange, held]
      | modified => exact keeps ⟨document, .added⟩ rfl ⟨absent, second.2⟩ (by simp [DocumentViewChangeSet.addChange, held])
      | metadata => exact keeps ⟨document, .added⟩ rfl ⟨absent, second.2⟩ (by simp [DocumentViewChangeSet.addChange, held])
    | modified =>
      obtain ⟨present, now⟩ := first
      cases type with
      | added => cases second.1.symm.trans now
      | removed => exact keeps ⟨earlier, .removed⟩ own ⟨present, second.2⟩ (by simp [DocumentViewChangeSet.addChange, held])
      | modified => exact keeps ⟨document, .modified⟩ rfl ⟨present, second.2⟩ (by simp [DocumentViewChangeSet.addChange, held])
      | metadata => exact keeps ⟨document, .modified⟩ rfl ⟨present, second.2⟩ (by simp [DocumentViewChangeSet.addChange, held])
    | removed =>
      obtain ⟨present, gone⟩ := first
      cases type with
      | added => exact keeps ⟨document, .modified⟩ rfl ⟨present, second.2⟩ (by simp [DocumentViewChangeSet.addChange, held])
      | removed => simp [Turns, gone] at second
      | modified => simp [Turns, gone] at second
      | metadata => simp [Turns, gone] at second

section Difference

variable [Ord ν] {query : Query κ δ ν}

structure Difference (before after : DocumentSet query) (changes : DocumentViewChangeSet κ δ) : Prop where
  filed : Filed changes
  turns : ∀ key, Turns (before.find key) (after.find key) (changes.find key)

theorem Difference.refl (documents : DocumentSet query) : Difference documents documents DocumentViewChangeSet.empty :=
  ⟨fun _ _ found => by simp at found, fun _ => rfl⟩

theorem Difference.addChange {before middle after : DocumentSet query} {changes : DocumentViewChangeSet κ δ}
    {change : DocumentViewChange κ δ} (difference : Difference before middle changes)
    (here : Turns (middle.find change.document.key) (after.find change.document.key) (some change))
    (elsewhere : ∀ key, key ≠ change.document.key → after.find key = middle.find key) :
    ∃ next, changes.addChange change = some next ∧ Difference before after next := by
  obtain ⟨next, added, merged⟩ := addChange_merged difference.filed (difference.turns change.document.key) here
  refine ⟨next, added, merged.filed, ?_⟩
  intro key
  by_cases same : key = change.document.key
  · rw [same]
    exact merged.turns
  · rw [merged.others key same, elsewhere key same]
    exact difference.turns key

theorem DocumentViewChangeSet.mem_getChanges {changes : DocumentViewChangeSet κ δ} (filed : Filed changes)
    {change : DocumentViewChange κ δ} : change ∈ changes.getChanges ↔ changes.find change.document.key = some change := by
  unfold DocumentViewChangeSet.getChanges
  rw [List.mem_map]
  refine ⟨?_, ?_⟩
  · rintro ⟨⟨key, value⟩, member, rfl⟩
    have found : changes.find key = some value := AList.mem_lookup_iff.mpr member
    rw [filed key value found]
    exact found
  · intro found
    exact ⟨⟨change.document.key, change⟩, AList.mem_lookup_iff.mp found, rfl⟩

theorem DocumentViewChangeSet.getChanges_keys {changes : DocumentViewChangeSet κ δ} (filed : Filed changes) :
    (changes.getChanges.map fun change => change.document.key).Nodup := by
  have keys : changes.getChanges.map (fun change => change.document.key) = changes.changeMap.keys := by
    unfold DocumentViewChangeSet.getChanges
    rw [List.map_map]
    refine List.map_congr_left ?_
    rintro ⟨key, value⟩ member
    exact filed key value (AList.mem_lookup_iff.mpr member)
  rw [keys]
  exact changes.changeMap.keys_nodup

theorem Difference.eq_of_nil [Std.TransOrd ν] {before after : DocumentSet query} {changes : DocumentViewChangeSet κ δ}
    (difference : Difference before after changes) (none : changes.getChanges = []) : after = before := by
  apply Keyed.Sorted.ext_find
  intro key
  have turns := difference.turns key
  cases found : changes.find key with
  | none => rw [found] at turns; exact turns
  | some change =>
    have own := difference.filed key change found
    have member := (DocumentViewChangeSet.mem_getChanges difference.filed).mpr (own.symm ▸ found)
    rw [none] at member
    cases member

end Difference

end FireChat.Core.Proofs
