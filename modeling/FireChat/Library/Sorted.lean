import FireChat.Library.Cut
import FireChat.Library.Keyed
import Mathlib.Data.List.Sort

/-! Keyed items in the order of a comparator. The order breaks ties by key, so
the items alone determine the list. -/

namespace Keyed

/-- A total preorder that tells any two items of different keys apart. -/
class Orders {κ ν : Type} (key : ν → κ) (cmp : ν → ν → Ordering) : Prop extends Std.TransCmp cmp where
  same_key : ∀ first second, cmp first second = .eq → key first = key second

structure Sorted {κ ν : Type} (key : ν → κ) (cmp : ν → ν → Ordering) extends Items key where
  sorted : list.Pairwise fun first second => cmp first second = .lt

namespace Sorted

variable {κ ν : Type} {key : ν → κ} {cmp : ν → ν → Ordering}

def empty : Sorted key cmp := ⟨Items.empty, List.Pairwise.nil⟩

theorem ext_mem [Orders key cmp] {first second : Sorted key cmp}
    (same : ∀ item, item ∈ first.list ↔ item ∈ second.list) : first = second := by
  have permuted : first.list.Perm second.list :=
    (List.perm_ext_iff_of_nodup first.distinct.of_map second.distinct.of_map).mpr same
  have lists : first.list = second.list := by
    refine permuted.eq_of_pairwise ?_ first.sorted second.sorted
    intro a b _ _ below above
    have back : cmp b a = .gt := Std.OrientedCmp.gt_of_lt below
    rw [above] at back
    cases back
  obtain ⟨⟨_, _⟩, _⟩ := first
  obtain ⟨⟨_, _⟩, _⟩ := second
  cases lists
  rfl

def filter (items : Sorted key cmp) (keep : ν → Bool) : Sorted key cmp where
  list := items.list.filter keep
  distinct := items.distinct.sublist (List.filter_sublist.map key)
  sorted := items.sorted.sublist List.filter_sublist

section Cuts

variable {small large : Sorted key cmp} {within : ν → Bool} {count : Nat}

/-- A part of the order that nothing outside it comes before stands at the front. -/
theorem filter_front (down : ∀ a b, cmp a b = .lt → within b → within a) (items : Sorted key cmp) :
    items.list = items.list.filter within ++ items.list.filter fun item => !within item := by
  suffices front : ∀ list : List ν, (list.Pairwise fun first second => cmp first second = .lt) →
      list = list.filter within ++ list.filter fun item => !within item from front items.list items.sorted
  intro list
  induction list with
  | nil => exact fun _ => rfl
  | cons head rest ih =>
    intro sorted
    obtain ⟨before, sorted⟩ := List.pairwise_cons.mp sorted
    by_cases inside : within head
    · rw [List.filter_cons_of_pos inside, List.filter_cons_of_neg (by simpa using inside), List.cons_append, ← ih sorted]
    · have none : rest.filter within = [] := by
        apply List.filter_eq_nil_iff.mpr
        intro item member kept
        exact inside (down head item (before item member) kept)
      have all : rest.filter (fun item => !within item) = rest := by
        rw [none, List.nil_append] at ih
        exact (ih sorted).symm
      rw [List.filter_cons_of_neg inside, none, List.filter_cons_of_pos (by simpa using inside), all, List.nil_append]

theorem filter_congr [Orders key cmp] (same : ∀ item, within item → (item ∈ small.list ↔ item ∈ large.list)) :
    small.list.filter within = large.list.filter within := by
  have equal : small.filter within = large.filter within := by
    apply ext_mem
    intro item
    simp only [filter, List.mem_filter]
    refine ⟨?_, ?_⟩
    · rintro ⟨member, inside⟩
      exact ⟨(same item inside).mp member, inside⟩
    · rintro ⟨member, inside⟩
      exact ⟨(same item inside).mpr member, inside⟩
  exact congrArg (fun items : Sorted key cmp => items.list) equal

/-- The first items are those of the front part if it has that many. -/
theorem take_congr [Orders key cmp] (down : ∀ a b, cmp a b = .lt → within b → within a)
    (same : ∀ item, within item → (item ∈ small.list ↔ item ∈ large.list)) (enough : count ≤ (small.list.filter within).length) :
    small.list.take count = large.list.take count := by
  have equal := filter_congr same
  rw [filter_front down small, filter_front down large, List.take_append_of_le_length enough, equal,
    List.take_append_of_le_length (equal ▸ enough)]

theorem drop_congr [Orders key cmp] (up : ∀ a b, cmp a b = .lt → within a → within b)
    (same : ∀ item, within item → (item ∈ small.list ↔ item ∈ large.list)) (enough : count ≤ (small.list.filter within).length) :
    small.list.drop (small.list.length - count) = large.list.drop (large.list.length - count) := by
  have last : ∀ items : Sorted key cmp, count ≤ (items.list.filter within).length → items.list.drop (items.list.length - count) =
      (items.list.filter within).drop ((items.list.filter within).length - count) := by
    intro items enough
    have split := @filter_front _ _ _ cmp (fun item => !within item) (fun a b below outside => by
      simp only [Bool.not_eq_true'] at outside ⊢
      exact Bool.eq_false_iff.mpr fun inside => by simp [up a b below inside] at outside) items
    simp only [Bool.not_not] at split
    have length : items.list.length = (items.list.filter fun item => !within item).length + (items.list.filter within).length := by
      rw [← List.length_append, ← split]
    have skip : items.list.length - count = (items.list.filter fun item => !within item).length + ((items.list.filter within).length - count) := by
      omega
    rw [skip]
    calc items.list.drop _
        = ((items.list.filter fun item => !within item) ++ items.list.filter within).drop _ := congrArg (List.drop _) split
      _ = _ := by rw [List.drop_length_add_append]
  have equal := filter_congr same
  rw [last small enough, last large (equal ▸ enough), equal]

end Cuts

/-- The list with an item put before the first one that does not stand below it. -/
def place (cmp : ν → ν → Ordering) (item : ν) (items : List ν) : List ν :=
  items.orderedInsert (fun first second => (cmp first second).isLE) item

theorem place_cons (item head : ν) (tail : List ν) :
    place cmp item (head :: tail) = if (cmp item head).isLE then item :: head :: tail else head :: place cmp item tail :=
  rfl

theorem perm_place (item : ν) (items : List ν) : (place cmp item items).Perm (item :: items) :=
  List.perm_orderedInsert _ item items

theorem mem_place {item other : ν} {items : List ν} : other ∈ place cmp item items ↔ other = item ∨ other ∈ items := by
  rw [(perm_place item items).mem_iff, List.mem_cons]

/-- An item that no other is level with goes to where it cuts the list. -/
theorem place_eq_cut {item : ν} {items : List ν} (divides : Cut.Divides (cmp item) items)
    (absent : ∀ other ∈ items, cmp item other ≠ .eq) :
    place cmp item items = Cut.below (cmp item) items ++ item :: Cut.above (cmp item) items := by
  induction items with
  | nil => rfl
  | cons head tail ih =>
    have whole : Cut.Divides (cmp item) ([] ++ head :: tail) := divides
    rw [place_cons]
    cases stands : cmp item head with
    | lt =>
      obtain ⟨front, _, back⟩ := whole.at_lt stands
      rw [List.nil_append] at front back
      rw [front, back]
      rfl
    | eq => exact absurd stands (absent head List.mem_cons_self)
    | gt =>
      obtain ⟨front, _, back⟩ := whole.at_gt stands
      rw [List.nil_append] at front back
      rw [front, back, if_neg (by simp), ih whole.back fun other member => absent other (List.mem_cons_of_mem _ member)]
      rfl

theorem place_eq_insertIdx (item : ν) (items : List ν) :
    ∃ index, index ≤ items.length ∧ place cmp item items = items.insertIdx index item := by
  induction items with
  | nil => exact ⟨0, Nat.le_refl 0, rfl⟩
  | cons head tail ih =>
    rw [place_cons]
    split
    · exact ⟨0, Nat.zero_le _, rfl⟩
    · obtain ⟨index, inside, placed⟩ := ih
      exact ⟨index + 1, Nat.succ_le_succ inside, by rw [placed, List.insertIdx_succ_cons]⟩

theorem sorted_place [Orders key cmp] {items : List ν} {item : ν}
    (sorted : items.Pairwise fun first second => cmp first second = .lt) (absent : key item ∉ items.map key) :
    (place cmp item items).Pairwise fun first second => cmp first second = .lt := by
  induction items with
  | nil => exact List.pairwise_singleton _ item
  | cons head tail ih =>
    obtain ⟨below, rest⟩ := List.pairwise_cons.mp sorted
    obtain ⟨different, others⟩ : key item ≠ key head ∧ key item ∉ tail.map key := by simpa using absent
    rw [place_cons]
    split
    next before =>
      have first : cmp item head = .lt := by
        cases order : cmp item head with
        | lt => rfl
        | eq => exact absurd (Orders.same_key item head order) different
        | gt => simp [order] at before
      refine List.pairwise_cons.mpr ⟨?_, sorted⟩
      intro other member
      rcases List.mem_cons.mp member with rfl | later
      · exact first
      · exact Std.TransCmp.lt_trans first (below other later)
    next after =>
      refine List.pairwise_cons.mpr ⟨?_, ih rest others⟩
      intro other member
      rcases mem_place.mp member with rfl | later
      · exact Std.OrientedCmp.lt_of_not_isLE after
      · exact below other later

variable [DecidableEq κ]

theorem ext_find [Orders key cmp] {first second : Sorted key cmp}
    (same : ∀ target, first.find target = second.find target) : first = second := by
  apply ext_mem
  intro item
  have here := same (key item)
  refine ⟨?_, ?_⟩
  · intro member
    exact (Items.find_eq_some.mp (here ▸ Items.find_eq_some.mpr ⟨member, rfl⟩)).1
  · intro member
    exact (Items.find_eq_some.mp (here ▸ Items.find_eq_some.mpr ⟨member, rfl⟩)).1

def erase (items : Sorted key cmp) (target : κ) : Sorted key cmp where
  list := items.list.filter fun item => key item ≠ target
  distinct := items.distinct.sublist (List.filter_sublist.map key)
  sorted := items.sorted.sublist List.filter_sublist

theorem mem_erase {items : Sorted key cmp} {target : κ} {item : ν} :
    item ∈ (items.erase target).list ↔ item ∈ items.list ∧ key item ≠ target := by
  simp [erase]

theorem absent_erase (items : Sorted key cmp) (target : κ) : target ∉ (items.erase target).list.map key := by
  intro member
  obtain ⟨item, kept, same⟩ := List.mem_map.mp member
  exact (mem_erase.mp kept).2 same

/-- The item replaces whatever its key held. -/
def insert [Orders key cmp] (items : Sorted key cmp) (item : ν) : Sorted key cmp where
  list := place cmp item (items.erase (key item)).list
  distinct := by
    rw [((perm_place item _).map key).nodup_iff]
    exact List.nodup_cons.mpr ⟨absent_erase items (key item), (items.erase (key item)).distinct⟩
  sorted := sorted_place (items.erase (key item)).sorted (absent_erase items (key item))

theorem mem_insert [Orders key cmp] {items : Sorted key cmp} {item other : ν} :
    other ∈ (items.insert item).list ↔ other = item ∨ other ∈ items.list ∧ key other ≠ key item := by
  rw [insert, mem_place, mem_erase]

theorem absent_of_find {items : Sorted key cmp} {target : κ} (missing : items.find target = none) :
    target ∉ items.list.map key := by
  intro member
  obtain ⟨item, held, same⟩ := List.mem_map.mp member
  cases missing.symm.trans (Items.find_eq_some.mpr ⟨held, same⟩)

theorem find_erase (items : Sorted key cmp) (gone target : κ) :
    (items.erase gone).find target = if gone = target then none else items.find target := by
  apply Option.ext
  intro item
  rw [Items.find_eq_some, mem_erase]
  split
  next same => subst same; simp
  next different =>
    rw [Items.find_eq_some]
    refine ⟨?_, ?_⟩
    · rintro ⟨⟨member, _⟩, keyed⟩
      exact ⟨member, keyed⟩
    · rintro ⟨member, keyed⟩
      exact ⟨⟨member, fun same => different (same.symm.trans keyed)⟩, keyed⟩

theorem find_insert [Orders key cmp] (items : Sorted key cmp) (item : ν) (target : κ) :
    (items.insert item).find target = if key item = target then some item else items.find target := by
  apply Option.ext
  intro other
  rw [Items.find_eq_some, mem_insert]
  split
  next same =>
    refine ⟨?_, ?_⟩
    · rintro ⟨member, keyed⟩
      rcases member with rfl | ⟨_, different⟩
      · rfl
      · exact absurd (keyed.trans same.symm) different
    · intro found
      cases found
      exact ⟨Or.inl rfl, same⟩
  next different =>
    rw [Items.find_eq_some]
    refine ⟨?_, ?_⟩
    · rintro ⟨member, keyed⟩
      rcases member with rfl | ⟨old, _⟩
      · exact absurd keyed different
      · exact ⟨old, keyed⟩
    · rintro ⟨old, keyed⟩
      exact ⟨Or.inr ⟨old, fun same => different (same.symm.trans keyed)⟩, keyed⟩

/-- Entries that are inserted one after the other, each under its own key. -/
theorem find_foldl_insert [Orders key cmp] {entry : κ → ν} {targets : List κ} (own : ∀ target ∈ targets, key (entry target) = target)
    (items : Sorted key cmp) (target : κ) :
    (targets.foldl (fun items target => items.insert (entry target)) items).find target =
      if target ∈ targets then some (entry target) else items.find target := by
  induction targets generalizing items with
  | nil => rfl
  | cons first rest ih =>
    rw [List.foldl_cons, ih (fun other later => own other (List.mem_cons_of_mem _ later)), find_insert, own first List.mem_cons_self]
    simp only [List.mem_cons]
    by_cases same : first = target
    · subst same
      simp only [if_true, true_or, ite_self]
    · simp only [same, Ne.symm same, if_false, false_or]

/-- A loop whose turns offer something for one target each, no two for the same one. -/
theorem find_foldl_offers {ι : Type} {label : ι → κ} {offer : ι → Option ν} {step : Sorted key cmp → ι → Sorted key cmp}
    (turn : ∀ items entry target, (step items entry).find target =
      if label entry = target then (offer entry).or (items.find target) else items.find target)
    {entries : List ι} (distinct : (entries.map label).Nodup) (items : Sorted key cmp) (target : κ) :
    (entries.foldl step items).find target =
      ((entries.find? fun entry => label entry = target).bind offer).or (items.find target) := by
  induction entries using List.reverseRecOn with
  | nil => rfl
  | append_singleton entries entry ih =>
    rw [List.map_append, List.nodup_append] at distinct
    rw [List.foldl_append, List.foldl_cons, List.foldl_nil, turn, ih distinct.1, List.find?_append]
    by_cases own : label entry = target
    · have fresh : (entries.find? fun entry => label entry = target) = none := by
        rw [List.find?_eq_none]
        intro earlier member same
        exact distinct.2.2 (label earlier) (List.mem_map_of_mem member) (label entry) (List.mem_singleton_self _)
          ((of_decide_eq_true same).trans own.symm)
      simp [own, fresh]
    · simp [own]

/-- Other entries in the place of some. -/
theorem exists_replaced [Orders key cmp] (items : Sorted key cmp) (targets : List κ) {entry : κ → Option ν}
    (own : ∀ target item, entry target = some item → key item = target) :
    ∃ next : Sorted key cmp, ∀ target, next.find target = if target ∈ targets then entry target else items.find target := by
  induction targets with
  | nil => exact ⟨items, fun _ => rfl⟩
  | cons first rest ih =>
    obtain ⟨next, found⟩ := ih
    suffices replaced : ∃ last : Sorted key cmp, ∀ target, last.find target = if first = target then entry first else next.find target by
      obtain ⟨last, outcome⟩ := replaced
      refine ⟨last, ?_⟩
      intro target
      rw [outcome target, found target]
      simp only [List.mem_cons]
      by_cases same : first = target
      · subst same
        simp only [if_true, true_or]
      · simp only [same, Ne.symm same, if_false, false_or]
    cases entered : entry first with
    | none => exact ⟨next.erase first, find_erase next first⟩
    | some item =>
      have keyed := own first item entered
      subst keyed
      exact ⟨next.insert item, find_insert next item⟩

theorem find_filter (items : Sorted key cmp) (keep : ν → Bool) (target : κ) :
    (items.filter keep).find target = (items.find target).filter keep := by
  apply Option.ext
  intro item
  rw [Option.filter_eq_some_iff, Items.find_eq_some, Items.find_eq_some]
  simp only [filter, List.mem_filter]
  refine ⟨?_, ?_⟩
  · rintro ⟨⟨member, kept⟩, same⟩
    exact ⟨⟨member, same⟩, kept⟩
  · rintro ⟨⟨member, same⟩, kept⟩
    exact ⟨⟨member, kept⟩, same⟩

theorem erase_last {items : Sorted key cmp} {front : List ν} {last : ν} (list : items.list = front ++ [last]) :
    (items.erase (key last)).list = front := by
  have distinct := items.distinct
  rw [list, List.map_append, List.nodup_append] at distinct
  have others : ∀ item ∈ front, key item ≠ key last :=
    fun item member => distinct.2.2 (key item) (List.mem_map_of_mem member) (key last) (by simp)
  simp only [erase, list, List.filter_append]
  rw [List.filter_eq_self.mpr fun item member => by simpa using others item member]
  simp

theorem erase_first {items : Sorted key cmp} {first : ν} {back : List ν} (list : items.list = first :: back) :
    (items.erase (key first)).list = back := by
  have distinct := items.distinct
  rw [list, List.map_cons, List.nodup_cons] at distinct
  have others : ∀ item ∈ back, key item ≠ key first :=
    fun item member same => distinct.1 (same ▸ List.mem_map_of_mem member)
  simp only [erase, list]
  rw [List.filter_cons_of_neg (by simp), List.filter_eq_self.mpr fun item member => by simpa using others item member]

/-- The position of a key's item. -/
def indexOf (items : Sorted key cmp) (target : κ) : Option Nat :=
  items.list.findIdx? fun item => key item = target

theorem indexOf_isSome {items : Sorted key cmp} {target : κ} : (items.indexOf target).isSome ↔ (items.find target).isSome := by
  simp [indexOf, Items.find]

theorem remove_indexOf {items : Sorted key cmp} {target : κ} {index : Nat} (found : items.indexOf target = some index) :
    items.toItems.remove index target = some (items.erase target).toItems := by
  obtain ⟨inside, held, earlier⟩ := List.findIdx?_eq_some_iff_getElem.mp found
  have same : items.list[index]?.map key = some target := by
    rw [List.getElem?_eq_getElem inside]
    simpa using held
  have erased : items.list.eraseIdx index = (items.erase target).list := by
    have first : items.list.eraseP (fun item => key item = target) = items.list.eraseIdx index := by
      rw [List.eraseP_eq_eraseIdx]
      simp only [indexOf] at found
      rw [found]
    rw [← first]
    exact eraseP_eq_filter items.distinct target
  unfold Items.remove
  rw [if_pos same]
  congr

theorem indexOf_of_getElem? {items : Sorted key cmp} {index : Nat} {item : ν} (held : items.list[index]? = some item) :
    items.indexOf (key item) = some index := by
  obtain ⟨inside, here⟩ := List.getElem?_eq_some_iff.mp held
  refine List.findIdx?_eq_some_iff_getElem.mpr ⟨inside, by simp [here], ?_⟩
  intro earlier before
  have apart : (items.list.map key)[earlier]? ≠ (items.list.map key)[index]? := by
    intro repeated
    have bound : earlier < (items.list.map key).length := by simpa using before.trans inside
    exact absurd ((List.getElem?_inj bound items.distinct).mp repeated) before.ne
  simpa [held, List.getElem?_eq_getElem (before.trans inside)] using apart

theorem insert_indexOf [Orders key cmp] {items : Sorted key cmp} {item : ν} (absent : key item ∉ items.list.map key) :
    ∃ index, (items.insert item).indexOf (key item) = some index ∧
      items.toItems.insert index item = some (items.insert item).toItems := by
  have whole : (items.erase (key item)).list = items.list := by
    refine List.filter_eq_self.mpr ?_
    intro other member
    have different : key other ≠ key item := fun same => absent (same ▸ List.mem_map_of_mem member)
    simpa using different
  obtain ⟨index, inside, placed⟩ := @place_eq_insertIdx _ cmp item items.list
  have list : (items.insert item).list = items.list.insertIdx index item := by rw [← placed, ← whole]; rfl
  refine ⟨index, indexOf_of_getElem? ?_, ?_⟩
  · rw [list, List.getElem?_insertIdx_self, if_pos inside]
  · unfold Items.insert
    rw [dif_pos ⟨inside, absent⟩]
    congr
    exact list.symm

/-- Two sorted lists that show the same under every key show the same list, if the order
depends on what they show. -/
theorem map_list_eq [Orders key cmp] {μ : Type} {label : μ → κ} {read : ν → μ} (keeps : ∀ item, label (read item) = key item)
    (respects : ∀ a b c d, read a = read c → read b = read d → cmp a b = cmp c d) {first second : Sorted key cmp}
    (same : ∀ target, (first.find target).map read = (second.find target).map read) :
    first.list.map read = second.list.map read := by
  have distinct : ∀ items : Sorted key cmp, (items.list.map read).Nodup := fun items =>
    (Items.map_labels read keeps items.list ▸ items.distinct : ((items.list.map read).map label).Nodup).of_map
  have shows : ∀ (items other : Sorted key cmp), (∀ target, (items.find target).map read = (other.find target).map read) →
      ∀ shown ∈ items.list.map read, shown ∈ other.list.map read := by
    intro items other same shown member
    obtain ⟨item, held, rfl⟩ := List.mem_map.mp member
    have here := same (key item)
    rw [Items.find_eq_some.mpr ⟨held, rfl⟩, Option.map_some] at here
    obtain ⟨another, found, equal⟩ := Option.map_eq_some_iff.mp here.symm
    exact List.mem_map.mpr ⟨another, (Items.find_eq_some.mp found).1, equal⟩
  have permuted : (first.list.map read).Perm (second.list.map read) :=
    (List.perm_ext_iff_of_nodup (distinct first) (distinct second)).mpr fun shown =>
      ⟨shows first second same shown, shows second first (fun target => (same target).symm) shown⟩
  have ordered : ∀ items : Sorted key cmp, (items.list.map read).Pairwise fun left right =>
      ∀ a b, read a = left → read b = right → cmp a b = .lt := by
    intro items
    refine List.pairwise_map.mpr (items.sorted.imp ?_)
    intro a b below c d left right
    rw [respects c d a b left right, below]
  refine permuted.eq_of_pairwise ?_ (ordered first) (ordered second)
  intro left right inFirst inSecond below above
  obtain ⟨a, _, rfl⟩ := List.mem_map.mp inFirst
  obtain ⟨b, _, rfl⟩ := List.mem_map.mp inSecond
  have order := below a b rfl rfl
  have back := Std.OrientedCmp.gt_of_lt order
  rw [above b a rfl rfl] at back
  cases back

end Sorted

end Keyed
