import FireChat.Core.SortedMap
import FireChat.Proofs.LlrbLookups
import Mathlib.Data.List.Pairwise

/-! The immutable maps never fail an assertion, and whether they are arrays or trees they
answer as one ascending list of entries does. -/

namespace FireChat.Core.Proofs

variable {κ ν : Type} {comparator : κ → κ → Ordering} {key : κ} {value : ν} {items next : List (κ × ν)}

def Ascending (comparator : κ → κ → Ordering) (items : List (κ × ν)) : Prop :=
  items.Pairwise fun first second => comparator first.1 second.1 = .lt

/-- The entries of a map in order. -/
def listed : SortedMap κ ν → List (κ × ν)
  | .array items => items
  | .tree root => entries root

/-- An array is short, a tree is a balanced one that has not lost its last entry. -/
inductive Valid (comparator : κ → κ → Ordering) : SortedMap κ ν → Prop
  | array {items : List (κ × ν)} : items.length ≤ fixedSize → Ascending comparator items → Valid comparator (.array items)
  | tree {root : LlrbNode κ ν} {height : Nat} : Balanced root height → root.red = false → root.isEmpty = false →
      Ascending comparator (entries root) → Valid comparator (.tree root)

theorem Valid.ascending {map : SortedMap κ ν} (valid : Valid comparator map) : Ascending comparator (listed map) := by
  cases valid with
  | array _ ascending => exact ascending
  | tree _ _ _ ascending => exact ascending

theorem valid_empty : Valid comparator (SortedMap.empty : SortedMap κ ν) := .array (Nat.zero_le _) List.Pairwise.nil

/-- The list with the value under the key. Where the comparator tells all keys apart, the
key is the one given; else a key that was there may have stayed. -/
def Placed (comparator : κ → κ → Ordering) (key : κ) (value : ν) (items next : List (κ × ν)) : Prop :=
  ∃ own, comparator key own = .eq ∧ (Cut.held (against comparator key) items = none → own = key) ∧
    next = Cut.below (against comparator key) items ++ (own, value) :: Cut.above (against comparator key) items

variable [Std.TransCmp comparator]

theorem Ascending.divides (ascending : Ascending comparator items) (key : κ) : Cut.Divides (against comparator key) items := by
  apply ascending.imp
  intro first second below reaches
  exact Std.TransCmp.lt_of_isLE_of_lt (Ordering.isLE_iff_ne_gt.mpr reaches) below

theorem Ascending.without (ascending : Ascending comparator items) (key : κ) :
    Ascending comparator (Cut.without (against comparator key) items) := by
  rw [(ascending.divides key).without_eq_filter]
  exact ascending.sublist List.filter_sublist

theorem Placed.ascending (placed : Placed comparator key value items next) (ascending : Ascending comparator items) :
    Ascending comparator next := by
  obtain ⟨own, same, _, rfl⟩ := placed
  have same' : comparator own key = .eq := Std.OrientedCmp.eq_symm same
  have after : ∀ entry ∈ Cut.above (against comparator key) items, comparator own entry.1 = .lt := by
    intro entry member
    have stands : comparator key entry.1 = .lt := of_decide_eq_true (List.mem_filter.mp member).2
    exact Std.TransCmp.lt_of_eq_of_lt same' stands
  have before : ∀ entry ∈ Cut.below (against comparator key) items, comparator entry.1 own = .lt := by
    intro entry member
    have stands : comparator key entry.1 = .gt := of_decide_eq_true (List.mem_filter.mp member).2
    exact Std.TransCmp.lt_of_lt_of_eq (Std.OrientedCmp.lt_of_gt stands) same
  refine List.pairwise_append.mpr ⟨ascending.sublist List.filter_sublist, ?_, ?_⟩
  · exact List.pairwise_cons.mpr ⟨after, ascending.sublist List.filter_sublist⟩
  · intro low inBelow high member
    rcases List.mem_cons.mp member with rfl | inAbove
    · exact before low inBelow
    · exact Std.TransCmp.lt_trans (before low inBelow) (after high inAbove)

section Insert

theorem placed_put (items : List (κ × ν)) :
    Placed comparator key value items (Cut.put (against comparator key) (stored key value) items) := by
  cases held : Cut.held (against comparator key) items with
  | none =>
    refine ⟨key, Std.ReflCmp.compare_self, fun _ => rfl, ?_⟩
    rw [Cut.put, held]
    rfl
  | some entry =>
    have same : against comparator key entry = .eq := Cut.side_held held
    refine ⟨entry.1, same, fun none => (by cases held.symm.trans none), ?_⟩
    rw [Cut.put, held]
    rfl

/-- The array's scan is the other way round, and stops at the same entry. -/
theorem scan_eq (entry : κ × ν) : (comparator entry.1 key = .lt) = (against comparator key entry = .gt) := by
  have swapped : comparator entry.1 key = (against comparator key entry).swap := Std.OrientedCmp.eq_swap
  rw [swapped, Ordering.swap_eq_lt]

theorem tree_insert {root : LlrbNode κ ν} {height : Nat} (balanced : Balanced root height) (black : root.red = false)
    (ascending : Ascending comparator (entries root)) :
    ∃ result height, root.insert comparator key value = some result ∧ Balanced result height ∧ result.red = false ∧
      result.isEmpty = false ∧ Placed comparator key value (entries root) (entries result) := by
  obtain ⟨result, height, ran, balanced, black, same⟩ := @insert_spec _ _ _ _ comparator key value _ balanced black (ascending.divides key)
  have placed := @placed_put _ _ comparator key value _ (entries root)
  rw [← same] at placed
  refine ⟨result, height, ran, balanced, black, ?_, placed⟩
  obtain ⟨own, _, _, entered⟩ := placed
  cases result with
  | empty => cases (List.append_eq_nil_iff.mp entered.symm).2
  | node => rfl

/-- Converting an array loses nothing: an ascending list is inserted entry by entry. -/
theorem create_spec (ascending : Ascending comparator items) :
    ∃ root height, TreeSortedMap.create comparator items = some root ∧ Balanced root height ∧ root.red = false ∧ entries root = items := by
  induction items using List.reverseRecOn with
  | nil => exact ⟨.empty, 0, rfl, .empty, rfl, rfl⟩
  | append_singleton front last ih =>
    obtain ⟨earlier, _, later⟩ := List.pairwise_append.mp ascending
    obtain ⟨root, height, ran, balanced, black, same⟩ := ih earlier
    rw [← same] at earlier
    obtain ⟨result, height, inserted, balanced, black, _, own, _, absent, entered⟩ :=
      @tree_insert _ _ comparator last.1 last.2 _ _ _ balanced black earlier
    have after : ∀ entry ∈ front, against comparator last.1 entry = .gt :=
      fun entry member => Std.OrientedCmp.gt_of_lt (later entry member last (List.mem_singleton_self last))
    have none : Cut.held (against comparator last.1) front = none := Cut.held_eq_none fun entry member => by simp [after entry member]
    rw [same] at absent entered
    refine ⟨result, height, Transition.run_concat.mpr ⟨root, ran, inserted⟩, balanced, black, ?_⟩
    rw [entered, absent none, Cut.below_eq_self after, Cut.above_eq_nil fun entry member => by simp [after entry member]]

variable [DecidableEq ν]

theorem array_insert (short : items.length < fixedSize) (ascending : Ascending comparator items) :
    ∃ next, ArraySortedMap.insert comparator key value items = some next ∧ next.length ≤ fixedSize ∧
      Placed comparator key value items next := by
  have divides := ascending.divides key
  have front : (items.takeWhile fun entry => comparator entry.1 key = .lt) = Cut.below (against comparator key) items := by
    simp only [scan_eq]
    exact divides.takeWhile_eq
  have back : ArraySortedMap.lowerBound comparator key items =
      (Cut.held (against comparator key) items).toList ++ Cut.above (against comparator key) items := by
    simp only [ArraySortedMap.lowerBound, scan_eq]
    exact divides.dropWhile_eq
  have whole := divides.eq_append
  have counted := congrArg List.length whole
  simp only [List.length_append] at counted
  have fits : ∀ {entries : List (κ × ν)}, entries.length ≤ fixedSize → ArraySortedMap.fixedArray entries = some entries :=
    fun short => if_pos short
  unfold ArraySortedMap.insert
  simp only [front, back]
  cases held : Cut.held (against comparator key) items with
  | none =>
    rw [held] at counted
    have room : (Cut.below (against comparator key) items ++ (key, value) :: Cut.above (against comparator key) items).length ≤ fixedSize := by
      simp only [Option.toList_none, List.length_nil, List.length_append, List.length_cons] at counted ⊢
      omega
    have placed : Placed comparator key value items
        (Cut.below (against comparator key) items ++ (key, value) :: Cut.above (against comparator key) items) :=
      ⟨key, Std.ReflCmp.compare_self, fun _ => rfl, rfl⟩
    cases above : Cut.above (against comparator key) items with
    | nil =>
      rw [above] at room placed
      exact ⟨_, fits room, room, placed⟩
    | cons pos rest =>
      have member : pos ∈ Cut.above (against comparator key) items := by rw [above]; exact List.mem_cons_self
      have stands : comparator key pos.1 = .lt := of_decide_eq_true (List.mem_filter.mp member).2
      rw [above] at room placed
      simp only [Option.toList_none, List.nil_append, stands, reduceCtorEq, if_false]
      exact ⟨_, fits room, room, placed⟩
  | some pos =>
    have same : against comparator key pos = .eq := Cut.side_held held
    change comparator key pos.1 = .eq at same
    rw [held] at counted
    have room : (Cut.below (against comparator key) items ++ (key, value) :: Cut.above (against comparator key) items).length ≤ fixedSize := by
      simp only [Option.toList_some, List.length_append, List.length_cons] at counted ⊢
      omega
    simp only [Option.toList_some, List.singleton_append, same, if_true]
    split
    next equal =>
      refine ⟨items, rfl, short.le, pos.1, same, fun none => (by cases held.symm.trans none), ?_⟩
      rw [held] at whole
      rw [equal]
      exact whole
    next =>
      exact ⟨_, fits room, room, key, Std.ReflCmp.compare_self, fun _ => rfl, rfl⟩

/-- An insertion goes through and leaves the value under the key, in either representation. -/
theorem insert_placed {map : SortedMap κ ν} (valid : Valid comparator map) (key : κ) (value : ν) :
    ∃ next, map.insert comparator key value = some next ∧ Valid comparator next ∧ Placed comparator key value (listed map) (listed next) := by
  have grown : ∀ {root : LlrbNode κ ν} {height : Nat}, Balanced root height → root.red = false → Ascending comparator (entries root) →
      ∃ next, (root.insert comparator key value).map SortedMap.tree = some next ∧ Valid comparator next ∧
        Placed comparator key value (entries root) (listed next) := by
    intro root height balanced black ascending
    obtain ⟨result, height, ran, balanced, black, filled, placed⟩ := @tree_insert _ _ comparator key value _ _ _ balanced black ascending
    exact ⟨.tree result, by rw [ran]; rfl, .tree balanced black filled (placed.ascending ascending), placed⟩
  cases valid with
  | @array items short ascending =>
    simp only [SortedMap.insert]
    split
    next =>
      obtain ⟨root, height, created, balanced, black, same⟩ := create_spec ascending
      rw [created, Option.bind_some]
      rw [← same] at ascending
      have outcome := grown balanced black ascending
      rw [same] at outcome
      exact outcome
    next room =>
      obtain ⟨next, ran, short, placed⟩ := @array_insert _ _ comparator key value _ _ _ (Nat.lt_of_not_le room) ascending
      exact ⟨.array next, by rw [ran]; rfl, .array short (placed.ascending ascending), placed⟩
  | tree balanced black _ ascending => exact grown balanced black ascending

end Insert

theorem array_erase (ascending : Ascending comparator items) :
    ArraySortedMap.erase comparator key items = Cut.without (against comparator key) items := by
  have divides := ascending.divides key
  unfold ArraySortedMap.erase
  change (if (Cut.held (against comparator key) items).isNone then items
    else if items.length ≤ 1 then [] else items.eraseP fun entry => against comparator key entry = .eq) = _
  have whole := divides.eq_append
  cases held : Cut.held (against comparator key) items with
  | none =>
    rw [held] at whole
    exact whole
  | some pos =>
    have same : against comparator key pos = .eq := Cut.side_held held
    rw [held] at whole
    have erased : items.eraseP (fun entry => against comparator key entry = .eq) = Cut.without (against comparator key) items := by
      have before : ∀ entry ∈ Cut.below (against comparator key) items, ¬decide (against comparator key entry = .eq) = true := by
        intro entry member
        have stands : against comparator key entry = .gt := of_decide_eq_true (List.mem_filter.mp member).2
        simp [stands]
      calc items.eraseP (fun entry => against comparator key entry = .eq)
          = (Cut.below (against comparator key) items ++ (pos :: Cut.above (against comparator key) items)).eraseP
              (fun entry => against comparator key entry = .eq) := congrArg _ whole
        _ = Cut.below (against comparator key) items ++ Cut.above (against comparator key) items := by
              rw [List.eraseP_append_right _ before, List.eraseP_cons_of_pos (by simp [same])]
    rw [if_neg (by simp)]
    split
    next few =>
      rw [← erased]
      have counted := congrArg List.length whole
      simp only [Option.toList_some, List.length_append, List.length_cons, List.length_nil] at counted
      have empties : (items.eraseP fun entry => against comparator key entry = .eq).length = 0 := by
        rw [erased, Cut.without, List.length_append]
        omega
      exact (List.eq_nil_of_length_eq_zero empties).symm
    next => exact erased

theorem erase_without {map : SortedMap κ ν} (valid : Valid comparator map) (key : κ) :
    ∃ next, map.erase comparator key = some next ∧ Valid comparator next ∧
      listed next = Cut.without (against comparator key) (listed map) := by
  cases valid with
  | @array items short ascending =>
    refine ⟨_, rfl, ?_, array_erase ascending⟩
    rw [array_erase ascending]
    refine .array (Nat.le_trans ?_ short) (ascending.without key)
    rw [(ascending.divides key).without_eq_filter]
    exact List.length_filter_le _ _
  | @tree root height balanced black filled ascending =>
    obtain ⟨result, height, ran, balanced, black, same⟩ := @erase_spec _ _ _ _ comparator key balanced black (ascending.divides key)
    cases result with
    | empty =>
      refine ⟨SortedMap.empty, by simp only [SortedMap.erase, ran]; rfl, valid_empty, ?_⟩
      exact same
    | node entry color size left right =>
      refine ⟨.tree (.node entry color size left right), by simp only [SortedMap.erase, ran]; rfl, ?_, same⟩
      refine .tree balanced black rfl ?_
      rw [same]
      exact ascending.without key

section Lookup

variable {map : SortedMap κ ν}

theorem find_held (valid : Valid comparator map) (key : κ) :
    map.find comparator key = Cut.held (against comparator key) (listed map) := by
  cases valid with
  | array => rfl
  | tree _ _ _ ascending => exact find_eq (ascending.divides key)

theorem contains_held (valid : Valid comparator map) (key : κ) :
    map.contains comparator key = (Cut.held (against comparator key) (listed map)).isSome := by
  cases valid with
  | array => rfl
  | tree _ _ _ ascending => exact contains_eq (ascending.divides key)

theorem findIndex_held (valid : Valid comparator map) (key : κ) :
    map.findIndex comparator key = (listed map).findIdx? fun entry => against comparator key entry = .eq := by
  cases valid with
  | array => rfl
  | tree balanced _ _ ascending =>
    have place := (ascending.divides key).findIdx?_eq
    refine (findIndex_eq balanced (ascending.divides key) 0).trans (Eq.trans ?_ place.symm)
    simp only [Nat.zero_add]

omit [Std.TransCmp comparator] in
theorem size_length (valid : Valid comparator map) : map.size = (listed map).length := by
  cases valid with
  | array => rfl
  | tree balanced => exact balanced.size_eq

omit [Std.TransCmp comparator] in
theorem min?_head? (valid : Valid comparator map) : map.min? = (listed map).head? := by
  cases valid with
  | array => rfl
  | @tree root =>
    have filled : Filled (LlrbNodeIterator.begin root).stack := filled_accumulateLeft fun _ member => by cases member
    refine (get_eq_head? filled).trans ?_
    rw [LlrbNodeIterator.begin, ahead_accumulateLeft]
    simp [ahead, listed]

omit [Std.TransCmp comparator] in
theorem max?_getLast? (valid : Valid comparator map) : map.max? = (listed map).getLast? := by
  cases valid with
  | array => rfl
  | tree => exact max?_eq_getLast? _

/-- A map answers as the ascending list of its entries does. -/
structure Answers (comparator : κ → κ → Ordering) (map : SortedMap κ ν) : Prop where
  ascending : Ascending comparator (listed map)
  find : ∀ key, map.find comparator key = (listed map).find? fun entry => against comparator key entry = .eq
  contains : ∀ key, map.contains comparator key = (listed map).any fun entry => against comparator key entry = .eq
  findIndex : ∀ key, map.findIndex comparator key = (listed map).findIdx? fun entry => against comparator key entry = .eq
  size : map.size = (listed map).length
  min : map.min? = (listed map).head?
  max : map.max? = (listed map).getLast?

theorem valid_answers (valid : Valid comparator map) : Answers comparator map := by
  refine ⟨valid.ascending, find_held valid, ?_, findIndex_held valid, size_length valid, min?_head? valid, max?_getLast? valid⟩
  intro key
  rw [contains_held valid, Cut.held]
  apply Bool.eq_iff_iff.mpr
  rw [List.find?_isSome, List.any_eq_true]

end Lookup

section Loops

/-- What an iterator has still to visit. -/
def unvisited : SortedMapIterator κ ν → List (κ × ν)
  | .array rest => rest
  | .tree iterator => ahead iterator.stack

def Anchored : SortedMapIterator κ ν → Prop
  | .array _ => True
  | .tree iterator => Filled iterator.stack

omit [Std.TransCmp comparator] in
theorem isEnd_of_nil {it : SortedMapIterator κ ν} (anchored : Anchored it) (done : unvisited it = []) : it.isEnd = true := by
  cases it with
  | array rest => exact List.isEmpty_iff.mpr done
  | tree iterator =>
    obtain ⟨stack⟩ := iterator
    cases stack with
    | nil => rfl
    | cons node stack =>
      cases node with
      | empty => cases anchored _ List.mem_cons_self
      | node => simp [unvisited, ahead_node] at done

omit [Std.TransCmp comparator] in
theorem turn_of_cons {it : SortedMapIterator κ ν} {entry : κ × ν} {rest : List (κ × ν)} (anchored : Anchored it)
    (left : unvisited it = entry :: rest) :
    it.isEnd = false ∧ it.get = some entry ∧ ∃ next, it.advance = some next ∧ Anchored next ∧ unvisited next = rest := by
  cases it with
  | array items =>
    cases left
    exact ⟨rfl, rfl, .array rest, rfl, trivial, rfl⟩
  | tree iterator =>
    obtain ⟨stack⟩ := iterator
    cases stack with
    | nil => cases left
    | cons node stack =>
      cases node with
      | empty => cases anchored _ List.mem_cons_self
      | node top color size low high =>
        simp only [unvisited, ahead_node] at left
        obtain ⟨rfl, later⟩ := List.cons.inj left
        refine ⟨rfl, rfl, .tree ⟨LlrbNodeIterator.accumulateLeft stack high⟩, rfl, ?_, ?_⟩
        · exact filled_accumulateLeft fun node member => anchored node (List.mem_cons_of_mem _ member)
        · exact (ahead_accumulateLeft _ _).trans later

/-- The loop of a range-based `for` from an iterator to the end. -/
inductive Visits : SortedMapIterator κ ν → List (κ × ν) → Prop
  | done {it : SortedMapIterator κ ν} : it.isEnd → Visits it []
  | turn {it next : SortedMapIterator κ ν} {entry : κ × ν} {rest : List (κ × ν)} : it.isEnd = false → it.get = some entry →
      it.advance = some next → Visits next rest → Visits it (entry :: rest)

omit [Std.TransCmp comparator] in
theorem visits_unvisited {it : SortedMapIterator κ ν} (anchored : Anchored it) (left : unvisited it = items) : Visits it items := by
  induction items generalizing it with
  | nil => exact .done (isEnd_of_nil anchored left)
  | cons entry rest ih =>
    obtain ⟨goesOn, got, next, advanced, anchored, left⟩ := turn_of_cons anchored left
    exact .turn goesOn got advanced (ih anchored left)

omit [Std.TransCmp comparator] in
theorem begin_anchored (map : SortedMap κ ν) : Anchored map.begin := by
  cases map with
  | array => trivial
  | tree => exact filled_accumulateLeft fun _ member => by cases member

omit [Std.TransCmp comparator] in
theorem unvisited_begin (map : SortedMap κ ν) : unvisited map.begin = listed map := by
  cases map with
  | array => rfl
  | tree root => exact (ahead_accumulateLeft _ _).trans (List.append_nil _)

omit [Std.TransCmp comparator] in
theorem lowerBound_anchored (map : SortedMap κ ν) (key : κ) : Anchored (map.lowerBound comparator key) := by
  cases map with
  | array => trivial
  | tree => exact filled_lowerBound fun _ member => by cases member

/-- An iterator at a lower bound has passed the entries that the key is above. -/
theorem unvisited_lowerBound {map : SortedMap κ ν} (valid : Valid comparator map) (key : κ) :
    unvisited (map.lowerBound comparator key) = (listed map).dropWhile fun entry => against comparator key entry = .gt := by
  cases valid with
  | array =>
    simp only [SortedMap.lowerBound, unvisited, ArraySortedMap.lowerBound, scan_eq]
    rfl
  | tree _ _ _ ascending =>
    have divides := ascending.divides key
    simp only [SortedMap.lowerBound, unvisited, ahead_lowerBound divides, listed]
    rw [divides.dropWhile_eq]
    exact List.append_nil _

end Loops

section Runs

theorem mem_without (ascending : Ascending comparator items) (key : κ) {entry : κ × ν} :
    entry ∈ Cut.without (against comparator key) items ↔ entry ∈ items ∧ comparator key entry.1 ≠ .eq := by
  rw [(ascending.divides key).without_eq_filter, List.mem_filter, decide_eq_true_iff]
  rfl

theorem Placed.mem (placed : Placed comparator key value items next) (ascending : Ascending comparator items) :
    ∃ own, comparator key own = .eq ∧
      ∀ entry, entry ∈ next ↔ entry = (own, value) ∨ entry ∈ items ∧ comparator key entry.1 ≠ .eq := by
  obtain ⟨own, same, _, rfl⟩ := placed
  refine ⟨own, same, ?_⟩
  intro entry
  rw [← mem_without ascending key, Cut.without, List.mem_append, List.mem_append, List.mem_cons]
  exact or_left_comm

theorem Valid.held_eq_some {map : SortedMap κ ν} (valid : Valid comparator map) {entry : κ × ν} :
    map.find comparator key = some entry ↔ entry ∈ listed map ∧ comparator key entry.1 = .eq := by
  rw [find_held valid]
  exact (valid.ascending.divides key).held_eq_some

theorem get_eq_some [Std.LawfulEqCmp comparator] {map : SortedMap κ ν} (valid : Valid comparator map) :
    map.get comparator key = some value ↔ (key, value) ∈ listed map := by
  rw [SortedMap.get, Option.map_eq_some_iff]
  refine ⟨?_, ?_⟩
  · rintro ⟨entry, held, rfl⟩
    obtain ⟨member, same⟩ := valid.held_eq_some.mp held
    obtain rfl := Std.LawfulEqCmp.eq_of_compare same
    exact member
  · intro member
    exact ⟨(key, value), valid.held_eq_some.mpr ⟨member, Std.ReflCmp.compare_self⟩, rfl⟩

/-- What is under a key after an insertion. -/
theorem get_placed {map after : SortedMap κ ν} (valid : Valid comparator map) (valid' : Valid comparator after)
    (placed : Placed comparator key value (listed map) (listed after)) (other : κ) :
    after.get comparator other = if comparator key other = .eq then some value else map.get comparator other := by
  obtain ⟨own, same, members⟩ := placed.mem valid.ascending
  unfold SortedMap.get
  split
  next equal =>
    have found : after.find comparator other = some (own, value) :=
      valid'.held_eq_some.mpr ⟨(members _).mpr (Or.inl rfl), Std.TransCmp.eq_trans (Std.OrientedCmp.eq_symm equal) same⟩
    rw [found]
    rfl
  next different =>
    apply congrArg (Option.map Prod.snd)
    apply Option.ext
    intro entry
    rw [valid'.held_eq_some, valid.held_eq_some, members]
    refine ⟨?_, ?_⟩
    · rintro ⟨rfl | ⟨member, _⟩, equal⟩
      · exact absurd (Std.TransCmp.eq_trans same (Std.OrientedCmp.eq_symm equal)) different
      · exact ⟨member, equal⟩
    · rintro ⟨member, equal⟩
      refine ⟨Or.inr ⟨member, ?_⟩, equal⟩
      intro mine
      exact different (Std.TransCmp.eq_trans mine (Std.OrientedCmp.eq_symm equal))

theorem get_without {map after : SortedMap κ ν} (valid : Valid comparator map) (valid' : Valid comparator after)
    (erased : listed after = Cut.without (against comparator key) (listed map)) (other : κ) :
    after.get comparator other = if comparator key other = .eq then none else map.get comparator other := by
  unfold SortedMap.get
  split
  next equal =>
    rw [Option.map_eq_none_iff]
    apply Option.eq_none_iff_forall_ne_some.mpr
    intro entry found
    obtain ⟨member, same⟩ := valid'.held_eq_some.mp found
    rw [erased, mem_without valid.ascending key] at member
    exact member.2 (Std.TransCmp.eq_trans equal same)
  next different =>
    apply congrArg (Option.map Prod.snd)
    apply Option.ext
    intro entry
    rw [valid'.held_eq_some, valid.held_eq_some, erased, mem_without valid.ascending key]
    refine ⟨?_, ?_⟩
    · rintro ⟨⟨member, _⟩, same⟩
      exact ⟨member, same⟩
    · rintro ⟨member, same⟩
      refine ⟨⟨member, ?_⟩, same⟩
      intro mine
      exact different (Std.TransCmp.eq_trans mine (Std.OrientedCmp.eq_symm same))

/-- A change of a map. -/
inductive Edit (κ ν : Type) where
  | insert (key : κ) (value : ν)
  | erase (key : κ)

def Edit.applyTo [DecidableEq ν] (comparator : κ → κ → Ordering) (map : SortedMap κ ν) : Edit κ ν → Option (SortedMap κ ν)
  | .insert key value => map.insert comparator key value
  | .erase key => map.erase comparator key

/-- What a map is for: a table with a value for each key that has one. -/
def Edit.assign (comparator : κ → κ → Ordering) (table : κ → Option ν) (edit : Edit κ ν) (other : κ) : Option ν :=
  match edit with
  | .insert key value => if comparator key other = .eq then some value else table other
  | .erase key => if comparator key other = .eq then none else table other

omit [Std.TransCmp comparator] in
/-- A table that values were put into under distinct keys has exactly these. -/
theorem inserts_eq_some [Std.LawfulEqCmp comparator] (distinct : Ascending comparator items) :
    (items.map fun added => Edit.insert added.1 added.2).foldl (Edit.assign comparator) (fun _ => none) key = some value ↔
      (key, value) ∈ items := by
  induction items using List.reverseRecOn with
  | nil => simp
  | append_singleton earlier last ih =>
    obtain ⟨before, _, apart⟩ := List.pairwise_append.mp distinct
    rw [List.map_append, List.foldl_append, List.mem_append, List.mem_singleton, ← ih before]
    simp only [List.map_cons, List.map_nil, List.foldl_cons, List.foldl_nil, Edit.assign]
    by_cases same : comparator last.1 key = .eq
    · obtain rfl := Std.LawfulEqCmp.eq_of_compare same
      rw [if_pos same, ih before]
      have absent : (last.1, value) ∉ earlier := by
        intro member
        have below := apart _ member last (List.mem_singleton_self last)
        cases below.symm.trans same
      simp [absent, Prod.ext_iff, eq_comm]
    · have other : (key, value) ≠ last := by
        rintro rfl
        exact same Std.ReflCmp.compare_self
      simp [same, other]

variable [DecidableEq ν]

theorem applyTo_assigns {map : SortedMap κ ν} (valid : Valid comparator map) (edit : Edit κ ν) :
    ∃ after, edit.applyTo comparator map = some after ∧ Valid comparator after ∧
      after.get comparator = edit.assign comparator (map.get comparator) := by
  cases edit with
  | insert key value =>
    obtain ⟨after, ran, valid', placed⟩ := insert_placed valid key value
    exact ⟨after, ran, valid', funext (get_placed valid valid' placed)⟩
  | erase key =>
    obtain ⟨after, ran, valid', erased⟩ := erase_without valid key
    exact ⟨after, ran, valid', funext (get_without valid valid' erased)⟩

theorem run_assigns (edits : List (Edit κ ν)) :
    ∃ map, Transition.run (Edit.applyTo comparator) SortedMap.empty edits = some map ∧ Valid comparator map ∧
      map.get comparator = edits.foldl (Edit.assign comparator) fun _ => none := by
  induction edits using List.reverseRecOn with
  | nil => exact ⟨SortedMap.empty, rfl, valid_empty, rfl⟩
  | append_singleton past edit ih =>
    obtain ⟨map, ran, valid, table⟩ := ih
    obtain ⟨after, applied, valid', assigned⟩ := applyTo_assigns valid edit
    refine ⟨after, Transition.run_concat.mpr ⟨map, ran, applied⟩, valid', ?_⟩
    rw [assigned, table, List.foldl_append]
    rfl

/-- However a map came about, it never failed an assertion, its array is short and its
tree balanced, and it has under every key what was last put there. -/
theorem sorted_map_is_table (edits : List (Edit κ ν)) :
    ∃ map, Transition.run (Edit.applyTo comparator) SortedMap.empty edits = some map ∧ Valid comparator map ∧
      map.get comparator = edits.foldl (Edit.assign comparator) (fun _ => none) ∧ Answers comparator map := by
  obtain ⟨map, ran, valid, same⟩ := @run_assigns _ _ comparator _ _ edits
  exact ⟨map, ran, valid, same, valid_answers valid⟩

/-- A map that outgrows its array, and then has an entry rewritten and another one erased. -/
def outgrown : List (Edit Nat Nat) := (List.range 26).map (fun key => .insert key (key + 1)) ++ [.insert 3 9, .erase 5]

theorem outgrown_map_is_table :
    ∃ map : SortedMap Nat Nat, Transition.run (Edit.applyTo compare) SortedMap.empty outgrown = some map ∧ Valid compare map ∧
      map.get compare = outgrown.foldl (Edit.assign compare) (fun _ => none) ∧ Answers compare map :=
  sorted_map_is_table outgrown

/-- A loop over a map sees what was last put under each key, in order. A loop from a
lower bound sees the same but for the entries that the key is above. -/
theorem loops_visit_table (edits : List (Edit κ ν)) :
    ∃ map seen, Transition.run (Edit.applyTo comparator) SortedMap.empty edits = some map ∧ Visits map.begin seen ∧
      Ascending comparator seen ∧
      (∀ key, (seen.find? fun entry => comparator key entry.1 = .eq).map Prod.snd = edits.foldl (Edit.assign comparator) (fun _ => none) key) ∧
      ∀ key, Visits (map.lowerBound comparator key) (seen.dropWhile fun entry => comparator key entry.1 = .gt) := by
  obtain ⟨map, ran, valid, same⟩ := @run_assigns _ _ comparator _ _ edits
  refine ⟨map, listed map, ran, visits_unvisited (begin_anchored map) (unvisited_begin map), valid.ascending, ?_, ?_⟩
  · intro key
    refine Eq.trans ?_ (congrFun same key)
    exact congrArg (Option.map Prod.snd) (find_held valid key).symm
  · intro key
    exact visits_unvisited (lowerBound_anchored map key) (unvisited_lowerBound valid key)

theorem outgrown_map_is_visited :
    ∃ (map : SortedMap Nat Nat) (seen : List (Nat × Nat)),
      Transition.run (Edit.applyTo compare) SortedMap.empty outgrown = some map ∧ Visits map.begin seen ∧ Ascending compare seen ∧
      (∀ key, (seen.find? fun entry => compare key entry.1 = .eq).map Prod.snd =
        outgrown.foldl (Edit.assign compare) (fun _ => none) key) ∧
      ∀ key, Visits (map.lowerBound compare key) (seen.dropWhile fun entry => compare key entry.1 = .gt) :=
  loops_visit_table outgrown

end Runs

end FireChat.Core.Proofs
