import FireChat.Library.Replay
import FireChat.Library.Transition
import Mathlib.Data.List.InsertIdx
import Mathlib.Data.List.Nodup

/-! A list whose items have distinct keys, and the changes that turn it into the
next one. A change names an item and the positions it leaves and enters. -/

namespace Keyed

/-- With distinct keys, erasing the first item of a key erases all of them. -/
theorem eraseP_eq_filter {κ ν : Type} [DecidableEq κ] {key : ν → κ} {items : List ν} (distinct : (items.map key).Nodup)
    (target : κ) : items.eraseP (fun item => key item = target) = items.filter fun item => key item ≠ target := by
  induction items with
  | nil => rfl
  | cons item items ih =>
    obtain ⟨absent, distinct⟩ := List.nodup_cons.mp distinct
    by_cases same : key item = target
    · have others : ∀ other ∈ items, key other ≠ target :=
        fun other member equal => absent (same.trans equal.symm ▸ List.mem_map_of_mem member)
      rw [List.eraseP_cons_of_pos (by simpa using same), List.filter_cons_of_neg (by simpa using same)]
      exact (List.filter_eq_self.mpr fun other member => by simpa using others other member).symm
    · rw [List.eraseP_cons_of_neg (by simpa using same), List.filter_cons_of_pos (by simpa using same), ih distinct]

inductive Kind where
  | added
  | modified
  | removed
deriving DecidableEq, Repr

structure Change (ν : Type) where
  kind : Kind
  item : ν
  oldIndex : Nat
  newIndex : Nat

/-- What a change leaves under the key of its item. -/
def Change.left {ν : Type} (change : Change ν) : Option ν :=
  match change.kind with
  | .added | .modified => some change.item
  | .removed => none

def Change.map {ν μ : Type} (read : ν → μ) (change : Change ν) : Change μ :=
  ⟨change.kind, read change.item, change.oldIndex, change.newIndex⟩

structure Items {κ ν : Type} (key : ν → κ) where
  list : List ν
  distinct : (list.map key).Nodup

namespace Items

variable {κ ν : Type} {key : ν → κ}

theorem ext_list {first second : Items key} (same : first.list = second.list) : first = second := by
  cases first
  cases second
  cases same
  rfl

def empty : Items key := ⟨[], List.nodup_nil⟩

variable [DecidableEq κ]

def insert (items : Items key) (index : Nat) (item : ν) : Option (Items key) :=
  if fresh : index ≤ items.list.length ∧ key item ∉ items.list.map key then
    some
      { list := items.list.insertIdx index item
        distinct := by
          rw [((List.perm_insertIdx item items.list fresh.1).map key).nodup_iff]
          exact List.nodup_cons.mpr ⟨fresh.2, items.distinct⟩ }
  else none

def remove (items : Items key) (index : Nat) (target : κ) : Option (Items key) :=
  if items.list[index]?.map key = some target then
    some ⟨items.list.eraseIdx index, items.distinct.sublist ((List.eraseIdx_sublist items.list index).map key)⟩
  else none

def apply (items : Items key) (change : Change ν) : Option (Items key) :=
  match change.kind with
  | .added => items.insert change.newIndex change.item
  | .modified => (items.remove change.oldIndex (key change.item)).bind (·.insert change.newIndex change.item)
  | .removed => items.remove change.oldIndex (key change.item)

def find (items : Items key) (target : κ) : Option ν := items.list.find? fun item => key item = target

theorem find_eq_some {items : Items key} {target : κ} {item : ν} :
    items.find target = some item ↔ item ∈ items.list ∧ key item = target := by
  refine ⟨?_, ?_⟩
  · intro found
    exact ⟨List.mem_of_find?_eq_some found, by simpa using List.find?_some found⟩
  · intro ⟨member, same⟩
    subst same
    cases found : items.find (key item) with
    | none => simpa using List.find?_eq_none.mp found item member
    | some other =>
      have same : key other = key item := by simpa using List.find?_some found
      rw [List.inj_on_of_nodup_map items.distinct (List.mem_of_find?_eq_some found) member same]

theorem mem_insert {items next : Items key} {index : Nat} {item : ν} (inserted : items.insert index item = some next)
    (other : ν) : other ∈ next.list ↔ other = item ∨ other ∈ items.list := by
  unfold insert at inserted
  split at inserted
  next fresh => cases inserted; exact List.mem_insertIdx fresh.1
  next => cases inserted

theorem absent_insert {items next : Items key} {index : Nat} {item : ν} (inserted : items.insert index item = some next) :
    key item ∉ items.list.map key := by
  unfold insert at inserted
  split at inserted
  next fresh => exact fresh.2
  next => cases inserted

theorem mem_remove {items next : Items key} {index : Nat} {target : κ} (removed : items.remove index target = some next)
    (other : ν) : other ∈ next.list ↔ other ∈ items.list ∧ key other ≠ target := by
  unfold remove at removed
  split at removed
  next held =>
    cases removed
    obtain ⟨gone, found, rfl⟩ := Option.map_eq_some_iff.mp held
    simp only [List.mem_eraseIdx_iff_getElem?]
    refine ⟨?_, ?_⟩
    · intro ⟨position, different, present⟩
      refine ⟨List.mem_of_getElem? present, ?_⟩
      intro same
      have inside := (List.getElem?_eq_some_iff.mp present).1
      have repeated : (items.list.map key)[position]? = (items.list.map key)[index]? := by simp [present, found, same]
      exact different ((List.getElem?_inj (by simpa using inside) items.distinct).mp repeated)
    · intro ⟨member, different⟩
      obtain ⟨position, present⟩ := List.mem_iff_getElem?.mp member
      refine ⟨position, ?_, present⟩
      intro same
      subst same
      exact different (congrArg key (Option.some.inj (present.symm.trans found)))
  next => cases removed

theorem find_insert {items next : Items key} {index : Nat} {item : ν} (inserted : items.insert index item = some next)
    (target : κ) : next.find target = if key item = target then some item else items.find target := by
  apply Option.ext
  intro other
  rw [find_eq_some, mem_insert inserted]
  split
  next same =>
    have absent := absent_insert inserted
    refine ⟨?_, ?_⟩
    · intro ⟨member, keyed⟩
      rcases member with rfl | old
      · rfl
      · exact absurd (same.trans keyed.symm ▸ List.mem_map_of_mem old) absent
    · intro found
      cases found
      exact ⟨Or.inl rfl, same⟩
  next different =>
    rw [find_eq_some]
    refine ⟨?_, ?_⟩
    · intro ⟨member, keyed⟩
      rcases member with rfl | old
      · exact absurd keyed different
      · exact ⟨old, keyed⟩
    · intro ⟨old, keyed⟩
      exact ⟨Or.inr old, keyed⟩

theorem find_remove {items next : Items key} {index : Nat} {gone : κ} (removed : items.remove index gone = some next)
    (target : κ) : next.find target = if gone = target then none else items.find target := by
  apply Option.ext
  intro other
  rw [find_eq_some, mem_remove removed]
  split
  next same =>
    subst same
    simp
  next different =>
    rw [find_eq_some]
    refine ⟨?_, ?_⟩
    · intro ⟨⟨member, _⟩, keyed⟩
      exact ⟨member, keyed⟩
    · intro ⟨member, keyed⟩
      exact ⟨⟨member, fun same => different (same.symm.trans keyed)⟩, keyed⟩

theorem find_apply {items next : Items key} {change : Change ν} (applied : items.apply change = some next) (target : κ) :
    next.find target = if key change.item = target then change.left else items.find target := by
  unfold apply at applied
  unfold Change.left
  cases kind : change.kind with
  | added =>
    simp only [kind] at applied
    exact find_insert applied target
  | removed =>
    simp only [kind] at applied
    exact find_remove applied target
  | modified =>
    simp only [kind] at applied
    obtain ⟨middle, removed, inserted⟩ := Option.bind_eq_some_iff.mp applied
    rw [find_insert inserted, find_remove removed]
    split
    · rfl
    · rfl

theorem insert_list {items next : Items key} {index : Nat} {item : ν} (inserted : items.insert index item = some next) :
    index ≤ items.list.length ∧ next.list = items.list.insertIdx index item := by
  unfold insert at inserted
  split at inserted
  next fresh => cases inserted; exact ⟨fresh.1, rfl⟩
  next => cases inserted

theorem remove_length {items next : Items key} {index : Nat} {target : κ} (removed : items.remove index target = some next) :
    next.list.length + 1 = items.list.length := by
  unfold remove at removed
  split at removed
  next held =>
    cases removed
    obtain ⟨gone, found, _⟩ := Option.map_eq_some_iff.mp held
    have inside := (List.getElem?_eq_some_iff.mp found).1
    rw [List.length_eraseIdx_of_lt inside]
    omega
  next => cases removed

theorem apply_length {items next : Items key} {change : Change ν} (applied : items.apply change = some next) :
    next.list.length + (if change.kind = .removed then 1 else 0) =
      items.list.length + if change.kind = .added then 1 else 0 := by
  have grown : ∀ {items next : Items key} {index item}, items.insert index item = some next →
      next.list.length = items.list.length + 1 := by
    intro items next index item inserted
    obtain ⟨inside, list⟩ := insert_list inserted
    rw [list, List.length_insertIdx_of_le_length inside]
  unfold apply at applied
  cases kind : change.kind with
  | added =>
    simp only [kind] at applied
    simpa using grown applied
  | removed =>
    simp only [kind] at applied
    simpa using remove_length applied
  | modified =>
    simp only [kind] at applied
    obtain ⟨middle, removed, inserted⟩ := Option.bind_eq_some_iff.mp applied
    have shorter := remove_length removed
    have longer := grown inserted
    simp only [reduceCtorEq, if_false]
    omega

/-- A list grows by its additions and shrinks by its removals. -/
theorem run_length {changes : List (Change ν)} {items next : Items key}
    (ran : Transition.run apply items changes = some next) :
    next.list.length + changes.countP (·.kind = .removed) = items.list.length + changes.countP (·.kind = .added) := by
  induction changes generalizing items with
  | nil => cases ran; rfl
  | cons change changes ih =>
    obtain ⟨middle, applied, ran⟩ := Transition.run_cons.mp ran
    have step := apply_length applied
    have rest := ih ran
    simp only [List.countP_cons, decide_eq_true_eq]
    omega

/-- After any number of changes to an empty list, a key holds what its last change left. -/
theorem find_run {changes : List (Change ν)} {items : Items key}
    (ran : Transition.run apply empty changes = some items) (target : κ) :
    items.find target = (Replay.latest (fun change => key change.item) target changes).bind Change.left := by
  have keeps : ∀ past (state : Items key) change next,
      (∀ target, state.find target = (Replay.latest (fun change => key change.item) target past).bind Change.left) →
      True → state.apply change = some next →
      ∀ target, next.find target = (Replay.latest (fun change => key change.item) target (past ++ [change])).bind Change.left := by
    intro past state change next held _ applied target
    rw [find_apply applied, Replay.latest_concat]
    split
    · rfl
    · exact held target
  exact Transition.run_history keeps (fun _ => rfl) (fun _ _ => trivial) ran target

section Map

variable {μ : Type} {label : μ → κ} (read : ν → μ)

omit [DecidableEq κ] in
theorem map_labels (keeps : ∀ item, label (read item) = key item) (items : List ν) :
    (items.map read).map label = items.map key := by
  rw [List.map_map]
  exact List.map_congr_left fun item _ => keeps item

variable (keeps : ∀ item, label (read item) = key item)

/-- The items seen through a function that keeps their keys. -/
def map (items : Items key) : Items label where
  list := items.list.map read
  distinct := map_labels read keeps items.list ▸ items.distinct

theorem find_map (items : Items key) (target : κ) : (items.map read keeps).find target = (items.find target).map read := by
  simp only [find, map, List.find?_map, Function.comp_def, keeps]

theorem map_insert (items : Items key) (index : Nat) (item : ν) :
    (items.map read keeps).insert index (read item) = (items.insert index item).map (map read keeps) := by
  have fresh_iff : (index ≤ (items.map read keeps).list.length ∧ label (read item) ∉ (items.map read keeps).list.map label) ↔
      index ≤ items.list.length ∧ key item ∉ items.list.map key := by
    simp only [map, List.length_map, map_labels read keeps, keeps]
  by_cases fresh : index ≤ items.list.length ∧ key item ∉ items.list.map key
  · rw [insert, dif_pos (fresh_iff.mpr fresh), insert, dif_pos fresh, Option.map_some]
    exact congrArg some (ext_list (List.map_insertIdx read items.list index item).symm)
  · rw [insert, dif_neg fun new => fresh (fresh_iff.mp new), insert, dif_neg fresh, Option.map_none]

theorem map_remove (items : Items key) (index : Nat) (target : κ) :
    (items.map read keeps).remove index target = (items.remove index target).map (map read keeps) := by
  have same : (items.map read keeps).list[index]?.map label = items.list[index]?.map key := by
    simp only [map, List.getElem?_map, Option.map_map, Function.comp_def, keeps]
  by_cases held : items.list[index]?.map key = some target
  · rw [remove, if_pos (same.trans held), remove, if_pos held, Option.map_some]
    exact congrArg some (ext_list (List.eraseIdx_map read items.list index))
  · rw [remove, if_neg fun new => held (same.symm.trans new), remove, if_neg held, Option.map_none]

theorem map_apply (items : Items key) (change : Change ν) :
    (items.map read keeps).apply (change.map read) = (items.apply change).map (map read keeps) := by
  unfold apply
  simp only [Change.map, keeps]
  cases change.kind with
  | added => exact map_insert read keeps items change.newIndex change.item
  | removed => exact map_remove read keeps items change.oldIndex (key change.item)
  | modified =>
    simp only [map_remove, Option.bind_map, Option.map_bind]
    refine Option.bind_congr fun middle _ => ?_
    exact map_insert read keeps middle change.newIndex change.item

end Map

section Relabel

variable {μ ι : Type} [DecidableEq ι] {label : μ → ι} {read : ν → μ} {among : ν → Prop}
  (tells : ∀ first second, among first → among second → (label (read first) = label (read second) ↔ key first = key second))

include tells

/-- Among items that a new label tells apart as well as their keys do, a change does
to the relabelled list what it does to the list. -/
theorem apply_relabel {items next : Items key} {shown : Items label} {change : Change ν}
    (inside : ∀ item ∈ items.list, among item) (fits : among change.item) (same : shown.list = items.list.map read)
    (applied : items.apply change = some next) :
    ∃ after, shown.apply (change.map read) = some after ∧ after.list = next.list.map read ∧ ∀ item ∈ next.list, among item := by
  have inserts : ∀ {items next : Items key} {shown : Items label}, (∀ item ∈ items.list, among item) →
      shown.list = items.list.map read → items.insert change.newIndex change.item = some next →
      ∃ after, shown.insert change.newIndex (read change.item) = some after ∧ after.list = next.list.map read ∧
        ∀ item ∈ next.list, among item := by
    intro items next shown inside same inserted
    obtain ⟨bound, list⟩ := insert_list inserted
    have absent := absent_insert inserted
    have fresh : change.newIndex ≤ shown.list.length ∧ label (read change.item) ∉ shown.list.map label := by
      rw [same, List.length_map, List.map_map]
      refine ⟨bound, ?_⟩
      intro member
      obtain ⟨item, held, equal⟩ := List.mem_map.mp member
      exact absent (List.mem_map.mpr ⟨item, held, (tells item change.item (inside item held) fits).mp equal⟩)
    refine ⟨_, dif_pos fresh, ?_, ?_⟩
    · simp only [same, list, List.map_insertIdx]
    · intro item member
      rcases (mem_insert inserted item).mp member with rfl | old
      · exact fits
      · exact inside item old
  have removes : ∀ {next : Items key}, items.remove change.oldIndex (key change.item) = some next →
      ∃ after, shown.remove change.oldIndex (label (read change.item)) = some after ∧ after.list = next.list.map read ∧
        ∀ item ∈ next.list, among item := by
    intro next removed
    have kept := mem_remove removed
    unfold remove at removed
    split at removed
    next held =>
      cases removed
      obtain ⟨gone, found, equal⟩ := Option.map_eq_some_iff.mp held
      have labelled : shown.list[change.oldIndex]?.map label = some (label (read change.item)) := by
        rw [same, List.getElem?_map, found, Option.map_some, Option.map_some]
        exact congrArg some ((tells gone change.item (inside gone (List.mem_of_getElem? found)) fits).mpr equal)
      refine ⟨_, if_pos labelled, ?_, ?_⟩
      · simp only [same, List.eraseIdx_map]
      · intro item member
        exact inside item ((kept item).mp member).1
    next => cases removed
  unfold apply at applied ⊢
  simp only [Change.map]
  cases kind : change.kind with
  | added =>
    simp only [kind] at applied
    exact inserts inside same applied
  | removed =>
    simp only [kind] at applied
    exact removes applied
  | modified =>
    simp only [kind] at applied
    obtain ⟨middle, removed, inserted⟩ := Option.bind_eq_some_iff.mp applied
    obtain ⟨left, out, list, among⟩ := removes removed
    obtain ⟨after, entered, outcome⟩ := inserts among list inserted
    exact ⟨after, Option.bind_eq_some_iff.mpr ⟨left, out, entered⟩, outcome⟩

theorem run_relabel {changes : List (Change ν)} {items next : Items key} {shown : Items label}
    (inside : ∀ item ∈ items.list, among item) (fits : ∀ change ∈ changes, among change.item)
    (same : shown.list = items.list.map read) (ran : Transition.run apply items changes = some next) :
    ∃ after, Transition.run apply shown (changes.map (Change.map read)) = some after ∧ after.list = next.list.map read := by
  induction changes generalizing items shown with
  | nil =>
    cases ran
    exact ⟨shown, rfl, same⟩
  | cons change changes ih =>
    obtain ⟨middle, applied, ran⟩ := Transition.run_cons.mp ran
    obtain ⟨reached, told, list, held⟩ := apply_relabel tells inside (fits change (by simp)) same applied
    obtain ⟨after, rest, outcome⟩ := ih held (fun other member => fits other (by simp [member])) list ran
    exact ⟨after, Transition.run_cons.mpr ⟨reached, told, rest⟩, outcome⟩

end Relabel

end Items

end Keyed
