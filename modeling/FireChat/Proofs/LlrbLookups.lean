import FireChat.Proofs.LlrbNodes

/-! What the lookups find in a red-black tree, and how its iterators go through it. -/

namespace FireChat.Core.Proofs

open LlrbNode LlrbNodeIterator

variable {κ ν : Type} {n : LlrbNode κ ν} {height : Nat} {comparator : κ → κ → Ordering} {key : κ}

theorem contains_eq (divides : Cut.Divides (against comparator key) (entries n)) :
    n.contains comparator key = (Cut.held (against comparator key) (entries n)).isSome := by
  induction n with
  | empty => rfl
  | node entry color size left right ihLeft ihRight =>
    unfold contains
    simp only [entries] at divides ⊢
    cases stands : against comparator key entry with
    | lt =>
      obtain ⟨_, found, _⟩ := divides.at_lt stands
      simp only [against] at stands
      rw [found, stands]
      exact ihLeft divides.front
    | eq =>
      obtain ⟨_, found, _⟩ := divides.at_eq stands
      simp only [against] at stands
      rw [found, stands]
      rfl
    | gt =>
      obtain ⟨_, found, _⟩ := divides.at_gt stands
      simp only [against] at stands
      rw [found, stands]
      exact ihRight divides.back

theorem findIndex_eq (balanced : Balanced n height) (divides : Cut.Divides (against comparator key) (entries n)) (pruned : Nat) :
    n.findIndex comparator key pruned =
      (Cut.held (against comparator key) (entries n)).map fun _ => pruned + (Cut.below (against comparator key) (entries n)).length := by
  induction n generalizing height pruned with
  | empty => rfl
  | node entry color size left right ihLeft ihRight =>
    obtain ⟨heightLeft, balancedLeft⟩ : ∃ height, Balanced left height := by
      cases balanced with
      | red balancedLeft => exact ⟨_, balancedLeft⟩
      | black balancedLeft => exact ⟨_, balancedLeft⟩
    obtain ⟨heightRight, balancedRight⟩ : ∃ height, Balanced right height := by
      cases balanced with
      | red _ balancedRight => exact ⟨_, balancedRight⟩
      | black _ balancedRight => exact ⟨_, balancedRight⟩
    unfold findIndex
    simp only [entries] at divides ⊢
    cases stands : against comparator key entry with
    | lt =>
      obtain ⟨front, found, _⟩ := divides.at_lt stands
      simp only [against] at stands
      rw [front, found, stands]
      exact ihLeft balancedLeft divides.front pruned
    | eq =>
      obtain ⟨front, found, _⟩ := divides.at_eq stands
      simp only [against] at stands
      rw [front, found, stands, ← balancedLeft.size_eq]
      rfl
    | gt =>
      obtain ⟨front, found, _⟩ := divides.at_gt stands
      simp only [against] at stands
      rw [front, found, stands]
      refine (ihRight balancedRight divides.back _).trans ?_
      rw [balancedLeft.size_eq, List.length_append, List.length_cons]
      apply congrArg (Option.map · _)
      funext _
      omega

section Iterators

def ahead (stack : List (LlrbNode κ ν)) : List (κ × ν) :=
  stack.flatMap fun node => node.nodeEntry.toList ++ entries node.right

theorem ahead_node {entry : κ × ν} {color : Color} {size : Nat} {left right : LlrbNode κ ν} {stack : List (LlrbNode κ ν)} :
    ahead (.node entry color size left right :: stack) = entry :: (entries right ++ ahead stack) := by
  simp [ahead]

theorem ahead_accumulateLeft (stack : List (LlrbNode κ ν)) (n : LlrbNode κ ν) :
    ahead (accumulateLeft stack n) = entries n ++ ahead stack := by
  induction n generalizing stack with
  | empty => rfl
  | node entry color size left right ihLeft _ =>
    rw [accumulateLeft, ihLeft, ahead_node, entries, List.append_assoc, List.cons_append]

theorem ahead_lowerBound (divides : Cut.Divides (against comparator key) (entries n)) (stack : List (LlrbNode κ ν)) :
    ahead (lowerBound comparator key stack n) =
      (Cut.held (against comparator key) (entries n)).toList ++ Cut.above (against comparator key) (entries n) ++ ahead stack := by
  induction n generalizing stack with
  | empty => rfl
  | node entry color size left right ihLeft ihRight =>
    unfold lowerBound
    simp only [entries] at divides ⊢
    cases stands : against comparator key entry with
    | lt =>
      obtain ⟨_, found, back⟩ := divides.at_lt stands
      simp only [against] at stands
      rw [found, back, stands]
      refine (ihLeft divides.front _).trans ?_
      rw [ahead_node]
      simp only [List.append_assoc, List.cons_append]
    | eq =>
      obtain ⟨_, found, back⟩ := divides.at_eq stands
      simp only [against] at stands
      rw [found, back, stands]
      exact ahead_node
    | gt =>
      obtain ⟨_, found, back⟩ := divides.at_gt stands
      simp only [against] at stands
      rw [found, back, stands]
      exact ihRight divides.back stack

def Filled (stack : List (LlrbNode κ ν)) : Prop := ∀ node ∈ stack, node.isEmpty = false

theorem filled_accumulateLeft {stack : List (LlrbNode κ ν)} (filled : Filled stack) : Filled (accumulateLeft stack n) := by
  induction n generalizing stack with
  | empty => exact filled
  | node entry color size left right ihLeft _ =>
    apply ihLeft
    intro node member
    rcases List.mem_cons.mp member with rfl | member
    · rfl
    · exact filled node member

theorem filled_lowerBound {stack : List (LlrbNode κ ν)} (filled : Filled stack) : Filled (lowerBound comparator key stack n) := by
  induction n generalizing stack with
  | empty => exact filled
  | node entry color size left right ihLeft ihRight =>
    have pushed : Filled (.node entry color size left right :: stack) := by
      intro node member
      rcases List.mem_cons.mp member with rfl | member
      · rfl
      · exact filled node member
    unfold lowerBound
    cases comparator key entry.1 with
    | lt => exact ihLeft pushed
    | eq => exact pushed
    | gt => exact ihRight filled

theorem get_eq_head? {iterator : LlrbNodeIterator κ ν} (filled : Filled iterator.stack) : iterator.get = (ahead iterator.stack).head? := by
  obtain ⟨stack⟩ := iterator
  cases stack with
  | nil => rfl
  | cons node stack =>
    cases node with
    | empty => cases filled _ List.mem_cons_self
    | node => rw [ahead_node]; rfl

theorem find_eq (divides : Cut.Divides (against comparator key) (entries n)) :
    n.find comparator key = Cut.held (against comparator key) (entries n) := by
  have found : (LlrbNodeIterator.mk (lowerBound comparator key [] n)).get = (Cut.held (against comparator key) (entries n)).or
      (Cut.above (against comparator key) (entries n)).head? := by
    rw [get_eq_head? (filled_lowerBound fun _ member => by cases member), ahead_lowerBound divides]
    cases Cut.held (against comparator key) (entries n) <;> simp [ahead]
  rw [LlrbNode.find, found]
  cases held : Cut.held (against comparator key) (entries n) with
  | some entry =>
    have same := Cut.side_held held
    exact Option.filter_eq_some_iff.mpr ⟨rfl, decide_eq_true same⟩
  | none =>
    rw [Option.none_or]
    apply Option.eq_none_iff_forall_ne_some.mpr
    intro entry kept
    obtain ⟨first, same⟩ := Option.filter_eq_some_iff.mp kept
    have above : against comparator key entry = .lt := of_decide_eq_true (List.mem_filter.mp (List.mem_of_head? first)).2
    cases above.symm.trans (of_decide_eq_true same)

end Iterators

end FireChat.Core.Proofs
