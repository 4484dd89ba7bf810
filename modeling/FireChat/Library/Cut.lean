import Mathlib.Data.List.Basic
import Mathlib.Order.Basic

/-! A list that a key cuts in three: the items below the key, at most one that it
is at, and the items above it. -/

namespace Cut

variable {α : Type} {side : α → Ordering} {items left right : List α} {item : α} {make : Option α → α}

/-- `side` tells how the key stands to an item. Where it is not above one, it is below
all later ones. -/
def Divides (side : α → Ordering) (items : List α) : Prop :=
  items.Pairwise fun first second => side first ≠ .gt → side second = .lt

def below (side : α → Ordering) (items : List α) : List α := items.filter fun item => side item = .gt

def held (side : α → Ordering) (items : List α) : Option α := items.find? fun item => side item = .eq

def above (side : α → Ordering) (items : List α) : List α := items.filter fun item => side item = .lt

/-- The list without what the key is at. -/
def without (side : α → Ordering) (items : List α) : List α := below side items ++ above side items

/-- The list with an item at the key, which may depend on what the key was at. -/
def put (side : α → Ordering) (make : Option α → α) (items : List α) : List α :=
  below side items ++ make (held side items) :: above side items

theorem Divides.front (divides : Divides side (left ++ item :: right)) : Divides side left :=
  (List.pairwise_append.mp divides).1

theorem Divides.back (divides : Divides side (left ++ item :: right)) : Divides side right :=
  (List.pairwise_cons.mp (List.pairwise_append.mp divides).2.1).2

theorem Divides.before (divides : Divides side (left ++ item :: right)) (reaches : side item ≠ .lt) :
    ∀ other ∈ left, side other = .gt := by
  intro other member
  by_contra stays
  exact reaches ((List.pairwise_append.mp divides).2.2 other member item List.mem_cons_self stays)

theorem Divides.after (divides : Divides side (left ++ item :: right)) (stays : side item ≠ .gt) :
    ∀ other ∈ right, side other = .lt := by
  intro other member
  exact (List.pairwise_cons.mp (List.pairwise_append.mp divides).2.1).1 other member stays

theorem side_held (found : held side items = some item) : side item = .eq := by
  have same := List.find?_some found
  exact of_decide_eq_true same

section Whole

theorem below_eq_self (all : ∀ item ∈ items, side item = .gt) : below side items = items :=
  List.filter_eq_self.mpr fun item member => by simp [all item member]

theorem above_eq_self (all : ∀ item ∈ items, side item = .lt) : above side items = items :=
  List.filter_eq_self.mpr fun item member => by simp [all item member]

theorem below_eq_nil (all : ∀ item ∈ items, side item ≠ .gt) : below side items = [] :=
  List.filter_eq_nil_iff.mpr fun item member => by simp [all item member]

theorem above_eq_nil (all : ∀ item ∈ items, side item ≠ .lt) : above side items = [] :=
  List.filter_eq_nil_iff.mpr fun item member => by simp [all item member]

theorem held_eq_none (all : ∀ item ∈ items, side item ≠ .eq) : held side items = none :=
  List.find?_eq_none.mpr fun item member => by simp [all item member]

end Whole

/-- The three parts of a list around an item. -/
structure Parts (side : α → Ordering) (items front : List α) (found : Option α) (back : List α) : Prop where
  below : below side items = front
  held : held side items = found
  above : above side items = back

theorem Divides.at_lt (divides : Divides side (left ++ item :: right)) (stands : side item = .lt) :
    Parts side (left ++ item :: right) (below side left) (held side left) (above side left ++ item :: right) := by
  have later := divides.after (by simp [stands])
  refine ⟨?_, ?_, ?_⟩
  · rw [Cut.below, List.filter_append, List.filter_cons_of_neg (by simp [stands])]
    exact (congrArg (below side left ++ ·) (below_eq_nil fun other member => by simp [later other member])).trans
      (List.append_nil _)
  · have none : (item :: right).find? (fun item => side item = .eq) = none := by
      rw [List.find?_cons_of_neg (by simp [stands])]
      exact held_eq_none fun other member => by simp [later other member]
    rw [Cut.held, List.find?_append, none, Option.or_none]
    rfl
  · rw [Cut.above, List.filter_append, List.filter_cons_of_pos (by simp [stands])]
    exact congrArg (fun rest => above side left ++ item :: rest) (above_eq_self later)

theorem Divides.at_gt (divides : Divides side (left ++ item :: right)) (stands : side item = .gt) :
    Parts side (left ++ item :: right) (left ++ item :: below side right) (held side right) (above side right) := by
  have earlier := divides.before (by simp [stands])
  refine ⟨?_, ?_, ?_⟩
  · rw [Cut.below, List.filter_append, List.filter_cons_of_pos (by simp [stands])]
    exact congrArg (· ++ item :: below side right) (below_eq_self earlier)
  · have none : left.find? (fun item => side item = .eq) = none :=
      held_eq_none fun other member => by simp [earlier other member]
    rw [Cut.held, List.find?_append, none, Option.none_or, List.find?_cons_of_neg (by simp [stands])]
    rfl
  · rw [Cut.above, List.filter_append, List.filter_cons_of_neg (by simp [stands])]
    exact congrArg (· ++ above side right) (above_eq_nil fun other member => by simp [earlier other member])

theorem Divides.at_eq (divides : Divides side (left ++ item :: right)) (stands : side item = .eq) :
    Parts side (left ++ item :: right) left (some item) right := by
  have earlier := divides.before (by simp [stands])
  have later := divides.after (by simp [stands])
  refine ⟨?_, ?_, ?_⟩
  · rw [Cut.below, List.filter_append, List.filter_cons_of_neg (by simp [stands])]
    have front : left.filter (fun item => side item = .gt) = left := below_eq_self earlier
    have back : right.filter (fun item => side item = .gt) = [] := below_eq_nil fun other member => by simp [later other member]
    rw [front, back, List.append_nil]
  · have none : left.find? (fun item => side item = .eq) = none :=
      held_eq_none fun other member => by simp [earlier other member]
    rw [Cut.held, List.find?_append, none, Option.none_or, List.find?_cons_of_pos (by simp [stands])]
  · rw [Cut.above, List.filter_append, List.filter_cons_of_neg (by simp [stands])]
    have front : left.filter (fun item => side item = .lt) = [] := above_eq_nil fun other member => by simp [earlier other member]
    have back : right.filter (fun item => side item = .lt) = right := above_eq_self later
    rw [front, back, List.nil_append]

theorem Divides.without_lt (divides : Divides side (left ++ item :: right)) (stands : side item = .lt) :
    without side (left ++ item :: right) = without side left ++ item :: right := by
  obtain ⟨front, _, back⟩ := divides.at_lt stands
  rw [without, front, back, ← List.append_assoc]
  rfl

theorem Divides.without_gt (divides : Divides side (left ++ item :: right)) (stands : side item = .gt) :
    without side (left ++ item :: right) = left ++ item :: without side right := by
  obtain ⟨front, _, back⟩ := divides.at_gt stands
  rw [without, front, back, List.append_assoc, List.cons_append]
  rfl

theorem Divides.without_eq (divides : Divides side (left ++ item :: right)) (stands : side item = .eq) :
    without side (left ++ item :: right) = left ++ right := by
  obtain ⟨front, _, back⟩ := divides.at_eq stands
  rw [without, front, back]

theorem Divides.put_lt (divides : Divides side (left ++ item :: right)) (stands : side item = .lt) :
    put side make (left ++ item :: right) = put side make left ++ item :: right := by
  obtain ⟨front, found, back⟩ := divides.at_lt stands
  rw [put, front, found, back, ← List.cons_append, ← List.append_assoc]
  rfl

theorem Divides.put_gt (divides : Divides side (left ++ item :: right)) (stands : side item = .gt) :
    put side make (left ++ item :: right) = left ++ item :: put side make right := by
  obtain ⟨front, found, back⟩ := divides.at_gt stands
  rw [put, front, found, back, List.append_assoc, List.cons_append]
  rfl

theorem Divides.put_eq (divides : Divides side (left ++ item :: right)) (stands : side item = .eq) :
    put side make (left ++ item :: right) = left ++ make (some item) :: right := by
  obtain ⟨front, found, back⟩ := divides.at_eq stands
  rw [put, front, found, back]

/-- The parts make up the list. -/
theorem Divides.eq_append (divides : Divides side items) :
    items = below side items ++ ((held side items).toList ++ above side items) := by
  induction items with
  | nil => rfl
  | cons first rest ih =>
    have whole : Divides side ([] ++ first :: rest) := divides
    cases stands : side first with
    | lt =>
      obtain ⟨front, found, back⟩ := whole.at_lt stands
      rw [List.nil_append] at front found back
      rw [front, found, back]
      rfl
    | eq =>
      obtain ⟨front, found, back⟩ := whole.at_eq stands
      rw [List.nil_append] at front found back
      rw [front, found, back]
      rfl
    | gt =>
      obtain ⟨front, found, back⟩ := whole.at_gt stands
      rw [List.nil_append] at front found back
      rw [front, found, back, List.nil_append, List.cons_append, ← ih whole.back]

/-- The key is at no more than one item. -/
theorem Divides.held_eq_some (divides : Divides side items) : held side items = some item ↔ item ∈ items ∧ side item = .eq := by
  refine ⟨?_, ?_⟩
  · intro found
    exact ⟨List.mem_of_find?_eq_some found, side_held found⟩
  · rintro ⟨member, stands⟩
    obtain ⟨left, right, rfl⟩ := List.append_of_mem member
    exact (divides.at_eq stands).held

theorem Divides.without_eq_filter (divides : Divides side items) : without side items = items.filter fun item => side item ≠ .eq := by
  induction items with
  | nil => rfl
  | cons first rest ih =>
    have whole : Divides side ([] ++ first :: rest) := divides
    cases stands : side first with
    | lt =>
      have kept := whole.without_lt stands
      have later : ∀ item ∈ rest, side item = .lt := whole.after (by simp [stands])
      rw [List.nil_append] at kept
      rw [kept, List.filter_cons_of_pos (by simp [stands]), List.filter_eq_self.mpr fun item member => by simp [later item member]]
      rfl
    | eq =>
      have kept := whole.without_eq stands
      have later : ∀ item ∈ rest, side item = .lt := whole.after (by simp [stands])
      rw [List.nil_append, List.nil_append] at kept
      rw [kept, List.filter_cons_of_neg (by simp [stands]), List.filter_eq_self.mpr fun item member => by simp [later item member]]
    | gt =>
      have kept := whole.without_gt stands
      rw [List.nil_append, List.nil_append] at kept
      rw [kept, List.filter_cons_of_pos (by simp [stands]), ih whole.back]

/-- A scan for the first item that is not below the key stops at the cut. -/
theorem Divides.takeWhile_eq (divides : Divides side items) : items.takeWhile (fun item => side item = .gt) = below side items := by
  induction items with
  | nil => rfl
  | cons first rest ih =>
    have whole : Divides side ([] ++ first :: rest) := divides
    by_cases stands : side first = .gt
    · obtain ⟨front, _, _⟩ := whole.at_gt stands
      rw [List.nil_append, List.nil_append] at front
      rw [front, List.takeWhile_cons_of_pos (by simpa using stands), ih whole.back]
    · have later : ∀ item ∈ first :: rest, side item ≠ .gt := by
        intro item member
        rcases List.mem_cons.mp member with rfl | member
        · exact stands
        · rw [whole.after stands item member]
          exact fun same => Ordering.noConfusion same
      rw [List.takeWhile_cons_of_neg (by simpa using stands), below_eq_nil later]

theorem Divides.dropWhile_eq (divides : Divides side items) :
    items.dropWhile (fun item => side item = .gt) = (held side items).toList ++ above side items := by
  have whole : items.takeWhile (fun item => side item = .gt) ++ items.dropWhile (fun item => side item = .gt) =
      below side items ++ ((held side items).toList ++ above side items) :=
    List.takeWhile_append_dropWhile.trans divides.eq_append
  rw [divides.takeWhile_eq] at whole
  exact List.append_cancel_left whole

/-- The place of the held item is the number of items below. -/
theorem Divides.findIdx?_eq (divides : Divides side items) :
    items.findIdx? (fun item => side item = .eq) = (held side items).map fun _ => (below side items).length := by
  induction items with
  | nil => rfl
  | cons first rest ih =>
    have whole : Divides side ([] ++ first :: rest) := divides
    rw [List.findIdx?_cons]
    cases stands : side first with
    | lt =>
      have later : ∀ item ∈ first :: rest, side item ≠ .eq := by
        intro item member
        rcases List.mem_cons.mp member with rfl | member
        · simp [stands]
        · simp [whole.after (by simp [stands]) item member]
      rw [held_eq_none later, if_neg (by simp), ih whole.back, held_eq_none fun item member => later item (List.mem_cons_of_mem _ member)]
      rfl
    | eq =>
      obtain ⟨front, found, _⟩ := whole.at_eq stands
      rw [List.nil_append] at front found
      rw [front, found]
      rfl
    | gt =>
      obtain ⟨front, found, _⟩ := whole.at_gt stands
      rw [List.nil_append, List.nil_append] at front
      rw [List.nil_append] at found
      rw [front, found, if_neg (by simp), ih whole.back, Option.map_map]
      rfl

end Cut
