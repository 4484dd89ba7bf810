import FireChat.Core.LlrbNode
import FireChat.Library.Cut
import Mathlib.Order.Defs.LinearOrder

/-! What the red-black trees keep: they are balanced, they count their entries, and an
insertion or an erasure changes just the one entry of its key. -/

namespace FireChat.Core.Proofs

open LlrbNode

variable {κ ν : Type} {n next left right : LlrbNode κ ν} {entry : κ × ν} {color : Color} {size height : Nat}

def entries : LlrbNode κ ν → List (κ × ν)
  | .empty => []
  | .node entry _ _ left right => entries left ++ entry :: entries right

/-- Red nodes lean left and have black children, every path down passes the same number
of black nodes, and every node counts itself and what is beneath it. -/
inductive Balanced : LlrbNode κ ν → Nat → Prop
  | empty : Balanced .empty 0
  | red {entry : κ × ν} {left right : LlrbNode κ ν} {height : Nat} : Balanced left height → Balanced right height → left.red = false → right.red = false →
      Balanced (.node entry .red (left.size + 1 + right.size) left right) height
  | black {entry : κ × ν} {left right : LlrbNode κ ν} {height : Nat} : Balanced left height → Balanced right height → right.red = false →
      Balanced (.node entry .black (left.size + 1 + right.size) left right) (height + 1)

theorem Balanced.counted_red (balancedLeft : Balanced left height) (balancedRight : Balanced right height)
    (blackLeft : left.red = false) (blackRight : right.red = false) (counted : size = left.size + 1 + right.size) :
    Balanced (.node entry .red size left right) height := by
  rw [counted]
  exact .red balancedLeft balancedRight blackLeft blackRight

theorem Balanced.counted_black (balancedLeft : Balanced left height) (balancedRight : Balanced right height)
    (calm : right.red = false) (counted : size = left.size + 1 + right.size) :
    Balanced (.node entry .black size left right) (height + 1) := by
  rw [counted]
  exact .black balancedLeft balancedRight calm

theorem Balanced.size_eq (balanced : Balanced n height) : n.size = (entries n).length := by
  induction balanced with
  | empty => rfl
  | red _ _ _ _ left right => simp only [size_node, entries, List.length_append, List.length_cons, left, right]; omega
  | black _ _ _ left right => simp only [size_node, entries, List.length_append, List.length_cons, left, right]; omega

theorem Balanced.eq_empty (balanced : Balanced n 0) (black : n.red = false) : n = .empty := by
  cases balanced with
  | empty => rfl
  | red => cases black

theorem Balanced.eq_black (balanced : Balanced n (height + 1)) (black : n.red = false) :
    ∃ entry left right, n = .node entry .black (left.size + 1 + right.size) left right ∧
      Balanced left height ∧ Balanced right height ∧ right.red = false := by
  cases balanced with
  | red => cases black
  | black left right calm => exact ⟨_, _, _, rfl, left, right, calm⟩

theorem Balanced.eq_red (balanced : Balanced n height) (red : n.red) :
    ∃ entry left right, n = .node entry .red (left.size + 1 + right.size) left right ∧
      Balanced left height ∧ Balanced right height ∧ left.red = false ∧ right.red = false := by
  cases balanced with
  | empty => cases red
  | red left right blackLeft blackRight => exact ⟨_, _, _, rfl, left, right, blackLeft, blackRight⟩
  | black => cases red

theorem Balanced.blacken (balanced : Balanced n height) (red : n.red) : Balanced (n.setColor .black) (height + 1) := by
  obtain ⟨entry, left, right, rfl, balancedLeft, balancedRight, _, calm⟩ := balanced.eq_red red
  exact .black balancedLeft balancedRight calm

def Makes (outcome : Option (LlrbNode κ ν)) (height : Nat) (black : Prop) (held : List (κ × ν)) : Prop :=
  ∃ next, outcome = some next ∧ Balanced next height ∧ (black → next.red = false) ∧ entries next = held

section FixUp

theorem fixUp_calm (leaning : (left.red && left.left.red) = false) (calm : right.red = false) :
    (LlrbNode.node entry color size left right).fixUp = some (rep entry color left right) := by
  simp only [fixUp, rebalance, rep, right_node, left_node, calm, Bool.false_and, Bool.false_eq_true, if_false, Option.bind_some,
    leaning, Bool.and_false]

theorem fixUp_rotated {rightEntry : κ × ν} {rightSize : Nat} {inner outer : LlrbNode κ ν} (calm : left.red = false)
    (settled : outer.red = false) :
    (LlrbNode.node entry color size left (.node rightEntry .red rightSize inner outer)).fixUp =
      some (.node rightEntry color (left.size + 1 + rightSize) (rep entry .red left inner) outer) := by
  simp [fixUp, rebalance, rep, rotateLeft, calm, settled]

theorem fixUp_flipped {leftEntry rightEntry : κ × ν} {leftSize rightSize : Nat} {a b c d : LlrbNode κ ν} (calm : a.red = false) :
    (LlrbNode.node entry color size (.node leftEntry .red leftSize a b) (.node rightEntry .red rightSize c d)).fixUp =
      some (.node entry color.opposite (leftSize + 1 + rightSize) (.node leftEntry .black leftSize a b)
        (.node rightEntry .black rightSize c d)) := by
  simp [fixUp, rebalance, rep, flipColor, calm, Color.opposite]

theorem fixUp_overfull {leftEntry lowEntry : κ × ν} {leftSize lowSize : Nat} {a b inner : LlrbNode κ ν} (calm : right.red = false) :
    (LlrbNode.node entry color size (.node leftEntry .red leftSize (.node lowEntry .red lowSize a b) inner) right).fixUp =
      some (.node leftEntry color.opposite (leftSize + 1 + right.size) (.node lowEntry .black lowSize a b)
        (.node entry .black (inner.size + 1 + right.size) inner right)) := by
  simp [fixUp, rebalance, rep, rotateRight, flipColor, calm, Color.opposite]

/-- A black node is made whole again whichever of its children have turned red. -/
theorem fixUp_black (balancedLeft : Balanced left height) (balancedRight : Balanced right height) :
    Makes (LlrbNode.node entry .black size left right).fixUp (height + 1) (left.red = false ∨ right.red = false)
      (entries left ++ entry :: entries right) := by
  cases redLeft : left.red with
  | false =>
    cases redRight : right.red with
    | false =>
      refine ⟨_, fixUp_calm (by simp [redLeft]) redRight, .black balancedLeft balancedRight redRight, ?_, rfl⟩
      exact fun _ => rfl
    | true =>
      obtain ⟨rightEntry, inner, outer, rfl, balancedInner, balancedOuter, blackInner, blackOuter⟩ := balancedRight.eq_red redRight
      refine ⟨_, fixUp_rotated redLeft blackOuter, ?_, fun _ => rfl, ?_⟩
      · apply Balanced.counted_black (.red balancedLeft balancedInner redLeft blackInner) balancedOuter blackOuter
        simp only [size_node]
        omega
      · simp [entries, rep]
  | true =>
    obtain ⟨leftEntry, low, high, rfl, balancedLow, balancedHigh, blackLow, blackHigh⟩ := balancedLeft.eq_red redLeft
    cases redRight : right.red with
    | false =>
      refine ⟨_, fixUp_calm (by simp [blackLow]) redRight, .black balancedLeft balancedRight redRight, ?_, rfl⟩
      exact fun _ => rfl
    | true =>
      obtain ⟨rightEntry, inner, outer, rfl, balancedInner, balancedOuter, blackInner, blackOuter⟩ := balancedRight.eq_red redRight
      refine ⟨_, fixUp_flipped blackLow, ?_, ?_, rfl⟩
      · exact .red (.black balancedLow balancedHigh blackHigh) (.black balancedInner balancedOuter blackOuter) rfl rfl
      · intro black
        rcases black with black | black
        · cases redLeft.symm.trans black
        · cases black

theorem fixUp_red {black : Prop} (balancedLeft : Balanced left height) (balancedRight : Balanced right height)
    (blackLeft : left.red = false) (blackRight : right.red = false) (red : ¬black) :
    Makes (LlrbNode.node entry .red size left right).fixUp height black (entries left ++ entry :: entries right) :=
  ⟨_, fixUp_calm (by simp [blackLeft]) blackRight, .red balancedLeft balancedRight blackLeft blackRight,
    fun black => absurd black red, rfl⟩

theorem Makes.mono {outcome : Option (LlrbNode κ ν)} {black other : Prop} {held : List (κ × ν)}
    (makes : Makes outcome height black held) (weaker : other → black) : Makes outcome height other held := by
  obtain ⟨next, ran, balanced, stays, same⟩ := makes
  exact ⟨next, ran, balanced, fun holds => stays (weaker holds), same⟩

end FixUp

section Moves

variable {leftEntry rightEntry innerEntry : κ × ν} {leftColor rightColor : Color} {leftSize rightSize innerSize : Nat}
  {a b c d : LlrbNode κ ν}

theorem moveRedLeft_plain (calm : c.red = false) :
    (LlrbNode.node entry color size (.node leftEntry leftColor leftSize a b) (.node rightEntry rightColor rightSize c d)).moveRedLeft =
      some (.node entry color.opposite size (.node leftEntry leftColor.opposite leftSize a b)
        (.node rightEntry rightColor.opposite rightSize c d)) := by
  simp [moveRedLeft, flipColor, calm]

/-- The left child borrows from a right one that has a red child to give. -/
theorem moveRedLeft_borrows :
    (LlrbNode.node entry color size (.node leftEntry .black leftSize a b)
      (.node rightEntry .black rightSize (.node innerEntry .red innerSize c d) right)).moveRedLeft =
        some (.node innerEntry color size (.node entry .black (leftSize + 1 + c.size) (.node leftEntry .red leftSize a b) c)
          (.node rightEntry .black (d.size + 1 + right.size) d right)) := by
  cases color <;> simp [moveRedLeft, flipColor, setRight, rotateRight, rotateLeft, rep, Color.opposite]

theorem moveRedRight_plain (calm : a.red = false) :
    (LlrbNode.node entry color size (.node leftEntry leftColor leftSize a b) (.node rightEntry rightColor rightSize c d)).moveRedRight =
      some (.node entry color.opposite size (.node leftEntry leftColor.opposite leftSize a b)
        (.node rightEntry rightColor.opposite rightSize c d)) := by
  simp [moveRedRight, flipColor, calm]

/-- The right child borrows from a left one, and leans right until it has given the entry up. -/
theorem moveRedRight_borrows :
    (LlrbNode.node entry color size (.node leftEntry .black leftSize (.node innerEntry .red innerSize a b) left)
      (.node rightEntry .black rightSize c d)).moveRedRight =
        some (.node leftEntry color size (.node innerEntry .black innerSize a b)
          (.node entry .black (left.size + 1 + rightSize) left (.node rightEntry .red rightSize c d))) := by
  cases color <;> simp [moveRedRight, flipColor, rotateRight, rep, Color.opposite]

end Moves

section Descent

/-- On the way to the left: the left child that is gone on with, and that its node
takes any tree in its place. -/
theorem descend_left (balanced : Balanced n height) (ready : n.red ∨ n.left.red) (filled : n.left.isEmpty = false) :
    ∃ entry color size left right inner,
      (if !n.left.red && !n.left.left.red then n.moveRedLeft else some n) = some (.node entry color size left right) ∧
      Balanced left inner ∧ (left.red ∨ left.left.red) ∧ entries n = entries left ++ entry :: entries right ∧
      (∀ top, n.nodeEntry = some top → top = entry ∨ top ∈ entries left) ∧
      ∀ newLeft, Balanced newLeft inner → (left.red = false → newLeft.red = false) →
        Makes (LlrbNode.node entry color size newLeft right).fixUp height (n.red = false)
          (entries newLeft ++ entry :: entries right) := by
  cases red : n.red with
  | false =>
    have lean : n.left.red := by simpa [red] using ready
    cases balanced with
    | empty => cases filled
    | red => cases red
    | black balancedLeft balancedRight calm =>
      refine ⟨_, _, _, _, _, _, if_neg (by rw [lean]; simp), balancedLeft, Or.inl lean, rfl, ?_, ?_⟩
      · rintro _ ⟨⟩
        exact Or.inl rfl
      intro newLeft balanced _
      exact (fixUp_black balanced balancedRight).mono fun _ => Or.inr calm
  | true =>
    obtain ⟨entry, left, right, rfl, balancedLeft, balancedRight, blackLeft, blackRight⟩ := balanced.eq_red red
    cases height with
    | zero =>
      cases balancedLeft.eq_empty blackLeft
      cases filled
    | succ height =>
      obtain ⟨leftEntry, a, b, rfl, balancedA, balancedB, blackB⟩ := balancedLeft.eq_black blackLeft
      cases lean : a.red with
      | true =>
        refine ⟨_, _, _, _, _, _, if_neg (by simp [lean]), balancedLeft, Or.inr lean, rfl, ?_, ?_⟩
        · rintro _ ⟨⟩
          exact Or.inl rfl
        intro newLeft balanced black
        exact fixUp_red balanced balancedRight (black rfl) blackRight (by simp)
      | false =>
        obtain ⟨rightEntry, c, d, rfl, balancedC, balancedD, blackD⟩ := balancedRight.eq_black blackRight
        cases give : c.red with
        | true =>
          obtain ⟨innerEntry, low, high, rfl, balancedLow, balancedHigh, blackLow, blackHigh⟩ := balancedC.eq_red give
          refine ⟨_, _, _, _, _, _, (if_pos (by simp [lean])).trans moveRedLeft_borrows,
            .black (.red balancedA balancedB lean blackB) balancedLow blackLow, Or.inr rfl, by simp [entries], ?_, ?_⟩
          · rintro _ ⟨⟩
            exact Or.inr (by simp [entries])
          intro newLeft balanced black
          exact fixUp_red balanced (.black balancedHigh balancedD blackD) (black rfl) rfl (by simp)
        | false =>
          refine ⟨_, _, _, _, _, _, (if_pos (by simp [lean])).trans (moveRedLeft_plain give),
            .red balancedA balancedB lean blackB, Or.inl rfl, rfl, ?_, ?_⟩
          · rintro _ ⟨⟩
            exact Or.inl rfl
          intro newLeft balanced _
          exact (fixUp_black balanced (.red balancedC balancedD give blackD)).mono (by simp)

variable {side : κ × ν → Ordering}

/-- What an erasure may be let loose on: it then never has to turn a black leaf node
into nothing. -/
inductive Erasable (side : κ × ν → Ordering) : LlrbNode κ ν → Nat → Prop
  | empty : Erasable side .empty 0
  | red {n : LlrbNode κ ν} {height : Nat} : Balanced n height → n.red → Erasable side n height
  | leans {n : LlrbNode κ ν} {height : Nat} : Balanced n height → n.left.red → Erasable side n height
  /-- A node that has borrowed leans right, and the key is not on its left. -/
  | borrowed {entry : κ × ν} {left right : LlrbNode κ ν} {height : Nat} : Balanced left height → Balanced right height →
      left.red = false → right.red → side entry ≠ .lt →
      Erasable side (.node entry .black (left.size + 1 + right.size) left right) (height + 1)

/-- On the way to the right: likewise, and the node takes another entry too. An entry
of the key is never met above a node that has borrowed. -/
theorem descend_right (ready : Erasable side n height) (found : n.nodeEntry = some entry) (reaches : side entry ≠ .lt)
    (divides : Cut.Divides side (entries n)) :
    ∃ turned moved color size left right inner, (if n.left.red then n.rotateRight else some n) = some turned ∧
      (if !turned.right.isEmpty && !turned.right.red && !turned.right.left.red then turned.moveRedRight else some turned) =
        some (.node moved color size left right) ∧
      Erasable side right inner ∧ entries n = entries left ++ moved :: entries right ∧
      side moved ≠ .lt ∧ (right.isEmpty → height = 0 ∧ entries left = []) ∧
      (side moved = .eq → right.isEmpty = false → Balanced right inner ∧ (right.red ∨ right.left.red)) ∧
      ∀ newEntry newRight, Balanced newRight inner → (right.red = false → newRight.red = false) →
        Makes (LlrbNode.node newEntry color size left newRight).fixUp height (n.red = false)
          (entries left ++ newEntry :: entries newRight) := by
  cases ready with
  | empty => cases found
  | red balanced red =>
    obtain ⟨top, left, right, rfl, balancedLeft, balancedRight, blackLeft, blackRight⟩ := balanced.eq_red red
    cases found
    have turned : (if (LlrbNode.node entry .red (left.size + 1 + right.size) left right).left.red = true then
        (LlrbNode.node entry .red (left.size + 1 + right.size) left right).rotateRight
        else some (.node entry .red (left.size + 1 + right.size) left right)) = some (.node entry .red (left.size + 1 + right.size) left right) :=
      if_neg (by simp [blackLeft])
    cases height with
    | zero =>
      cases balancedLeft.eq_empty blackLeft
      cases balancedRight.eq_empty blackRight
      refine ⟨_, _, _, _, _, _, _, turned, if_neg (by simp), .empty, rfl, reaches, fun _ => ⟨rfl, rfl⟩, fun _ filled => Bool.noConfusion filled, ?_⟩
      intro newEntry newRight balanced black
      exact fixUp_red .empty balanced rfl (black rfl) (by simp)
    | succ height =>
      obtain ⟨rightEntry, c, d, rfl, balancedC, balancedD, blackD⟩ := balancedRight.eq_black blackRight
      cases lean : c.red with
      | true =>
        refine ⟨_, _, _, _, _, _, _, turned, if_neg (by simp [lean]), .leans balancedRight lean, rfl, reaches,
          fun empty => Bool.noConfusion empty,
          fun _ _ => ⟨balancedRight, Or.inr lean⟩, ?_⟩
        intro newEntry newRight balanced black
        exact fixUp_red balancedLeft balanced blackLeft (black rfl) (by simp)
      | false =>
        obtain ⟨leftEntry, a, b, rfl, balancedA, balancedB, blackB⟩ := balancedLeft.eq_black blackLeft
        cases give : a.red with
        | true =>
          obtain ⟨innerEntry, low, high, rfl, balancedLow, balancedHigh, blackLow, blackHigh⟩ := balancedA.eq_red give
          -- The entry that moves up stood before the one that the key is not left of.
          have passed := divides.before reaches leftEntry (by simp [entries])
          refine ⟨_, _, _, _, _, _, _, turned, (if_pos (by simp [lean])).trans moveRedRight_borrows,
            .borrowed balancedB (.red balancedC balancedD lean blackD) blackB rfl reaches, by simp [entries], ?_,
            fun empty => Bool.noConfusion empty, ?_, ?_⟩
          · rw [passed]
            exact fun below => Ordering.noConfusion below
          · intro same
            cases passed.symm.trans same
          · intro newEntry newRight balanced black
            exact fixUp_red (.black balancedLow balancedHigh blackHigh) balanced rfl (black rfl) (by simp)
        | false =>
          refine ⟨_, _, _, _, _, _, _, turned, (if_pos (by simp [lean])).trans (moveRedRight_plain give),
            .red (.red balancedC balancedD lean blackD) rfl, rfl, reaches, fun empty => Bool.noConfusion empty,
            fun _ _ => ⟨.red balancedC balancedD lean blackD, Or.inl rfl⟩, ?_⟩
          intro newEntry newRight balanced _
          exact (fixUp_black (.red balancedA balancedB give blackB) balanced).mono (by simp)
  | leans balanced lean =>
    cases balanced with
    | empty => cases lean
    | red _ _ black => cases black.symm.trans lean
    | black balancedLeft balancedRight calm =>
      obtain ⟨leftEntry, a, b, rfl, balancedA, balancedB, blackA, blackB⟩ := balancedLeft.eq_red lean
      cases found
      have red := @Balanced.red _ _ entry _ _ _ balancedB balancedRight blackB calm
      refine ⟨_, _, _, _, _, _, _, if_pos rfl, if_neg (by simp [rep]), .red red rfl, by simp [entries, rep], ?_,
        fun empty => Bool.noConfusion empty, fun _ _ => ⟨red, Or.inl rfl⟩, ?_⟩
      · rw [divides.before reaches leftEntry (by simp [entries])]
        exact fun below => Ordering.noConfusion below
      intro newEntry newRight balanced _
      exact (fixUp_black balancedA balanced).mono fun _ => Or.inl blackA
  | borrowed balancedLeft balancedRight blackLeft red _ =>
    cases found
    refine ⟨_, _, _, _, _, _, _, if_neg (by simp [blackLeft]), if_neg (by simp [red]), .red balancedRight red, rfl, reaches, ?_,
      fun _ _ => ⟨balancedRight, Or.inl red⟩, ?_⟩
    · intro empty
      obtain ⟨_, _, _, rfl, _⟩ := balancedRight.eq_red red
      cases empty
    · intro newEntry newRight balanced _
      exact (fixUp_black balancedLeft balanced).mono fun _ => Or.inl blackLeft

end Descent

theorem min?_eq_head? (n : LlrbNode κ ν) : n.min? = (entries n).head? := by
  induction n with
  | empty => rfl
  | node entry color size left right ihLeft ihRight =>
    cases left with
    | empty => rfl
    | node => simpa [LlrbNode.min?, entries] using ihLeft

theorem max?_eq_getLast? (n : LlrbNode κ ν) : n.max? = (entries n).getLast? := by
  induction n with
  | empty => rfl
  | node entry color size left right ihLeft ihRight =>
    cases right with
    | empty => simp [LlrbNode.max?, entries]
    | node rightEntry rightColor rightSize inner outer =>
      have last : (entries left ++ entry :: entries (.node rightEntry rightColor rightSize inner outer)).getLast? =
          (entries (.node rightEntry rightColor rightSize inner outer)).getLast? := by
        rw [List.getLast?_append, List.getLast?_cons]
        simp [entries, List.getLast?_append, List.getLast?_cons]
      simp only [LlrbNode.max?, isEmpty_node, Bool.false_eq_true, if_false, entries] at ihRight ⊢
      rw [ihRight]
      exact last.symm

theorem leaf_of_left_empty (balanced : Balanced n height) (ready : n.red ∨ n.left.red) (hollow : n.left.isEmpty) :
    height = 0 ∧ ∃ entry, n = .node entry .red 1 .empty .empty := by
  have red : n.red := by
    rcases ready with red | lean
    · exact red
    · cases gone : n.left with
      | empty => simp [gone] at lean
      | node => simp [gone] at hollow
  obtain ⟨entry, left, right, rfl, balancedLeft, balancedRight, _, blackRight⟩ := balanced.eq_red red
  cases left with
  | node => cases hollow
  | empty =>
    cases balancedLeft
    cases balancedRight.eq_empty blackRight
    exact ⟨rfl, entry, rfl⟩

theorem removeMin_spec (balanced : Balanced n height) (ready : n.red ∨ n.left.red) :
    Makes n.removeMin height (n.red = false) (entries n).tail := by
  induction counted : n.count using Nat.strongRecOn generalizing n height with
  | ind count ih =>
    subst counted
    rw [removeMin]
    cases filled : n.left.isEmpty with
    | true =>
      obtain ⟨rfl, entry, rfl⟩ := leaf_of_left_empty balanced ready filled
      exact ⟨.empty, rfl, .empty, fun _ => rfl, rfl⟩
    | false =>
      rw [if_neg Bool.false_ne_true]
      obtain ⟨entry, color, size, left, right, inner, moved, balancedLeft, readyLeft, same, _, takes⟩ := descend_left balanced ready filled
      have smaller : left.count < n.count := by
        have counted := count_if (fun _ => count_moveRedLeft) moved
        simp only [LlrbNode.count] at counted
        omega
      obtain ⟨newLeft, ran, balancedNew, black, rest⟩ := ih left.count smaller balancedLeft readyLeft rfl
      have some : entries left ≠ [] := by
        cases left with
        | empty => simp at readyLeft
        | node => simp [entries]
      have ran : left.removeMin.bind (fun newLeft => ((LlrbNode.node entry color size left right).setLeft newLeft).fixUp) =
          (LlrbNode.node entry color size newLeft right).fixUp := by rw [ran]; rfl
      rw [Option.pbind_eq_bind, moved, Option.bind_some, left_node, ran, same, List.tail_append_of_ne_nil some, ← rest]
      exact takes newLeft balancedNew black

section Keyed

variable {comparator : κ → κ → Ordering} {key : κ} {value : ν}

def against (comparator : κ → κ → Ordering) (key : κ) (entry : κ × ν) : Ordering := comparator key entry.1

/-- What an insertion below a red node may leave: a second red node on its left. -/
inductive Grown : LlrbNode κ ν → Nat → Prop
  | whole {n : LlrbNode κ ν} {height : Nat} : Balanced n height → Grown n height
  | overfull {entry : κ × ν} {left right : LlrbNode κ ν} {height : Nat} : Balanced left height → Balanced right height →
      left.red → right.red = false → Grown (.node entry .red (left.size + 1 + right.size) left right) height

def Inserts (outcome : Option (LlrbNode κ ν)) (height : Nat) (black : Prop) (held : List (κ × ν)) : Prop :=
  ∃ next, outcome = some next ∧ Grown next height ∧ (black → Balanced next height) ∧ entries next = held

theorem Balanced.one_red (balanced : Balanced n height) : (n.red && n.left.red) = false := by
  cases balanced with
  | empty => rfl
  | red _ _ black _ => simp [black]
  | black => rfl

theorem Makes.inserts {outcome : Option (LlrbNode κ ν)} {black other : Prop} {held : List (κ × ν)}
    (makes : Makes outcome height black held) : Inserts outcome height other held := by
  obtain ⟨next, ran, balanced, _, same⟩ := makes
  exact ⟨next, ran, .whole balanced, fun _ => balanced, same⟩

theorem grow_left {newLeft : LlrbNode κ ν} {black : Prop} (grown : Grown newLeft height) (balancedRight : Balanced right height)
    (calm : right.red = false) :
    Inserts (LlrbNode.node entry .black size newLeft right).fixUp (height + 1) black (entries newLeft ++ entry :: entries right) := by
  cases grown with
  | whole balanced => exact (fixUp_black balanced balancedRight).inserts
  | overfull balancedLow balancedInner red blackInner =>
    obtain ⟨lowEntry, a, b, rfl, balancedA, balancedB, _, blackB⟩ := balancedLow.eq_red red
    have balanced : ∀ {top low high : κ × ν} {inner : LlrbNode κ ν}, Balanced inner height → Balanced (.node top .red
        (a.size + 1 + b.size + 1 + inner.size + 1 + right.size) (.node low .black (a.size + 1 + b.size) a b)
        (.node high .black (inner.size + 1 + right.size) inner right)) (height + 1) := by
      intro top low high inner balancedInner
      apply Balanced.counted_red (.black balancedA balancedB blackB) (.black balancedInner balancedRight calm) rfl rfl
      simp only [size_node]
      omega
    exact ⟨_, fixUp_overfull calm, .whole (balanced balancedInner), fun _ => balanced balancedInner, by simp [entries]⟩

/-- A red node has no red children of its own, so that at most the new one leans. -/
theorem grow_red_left {newLeft : LlrbNode κ ν} {black : Prop} (balancedLeft : Balanced newLeft height)
    (balancedRight : Balanced right height) (calm : right.red = false) (red : ¬black) :
    Inserts (LlrbNode.node entry .red size newLeft right).fixUp height black (entries newLeft ++ entry :: entries right) := by
  refine ⟨_, fixUp_calm balancedLeft.one_red calm, ?_, fun black => absurd black red, rfl⟩
  cases lean : newLeft.red with
  | false => exact .whole (.red balancedLeft balancedRight lean calm)
  | true => exact .overfull balancedLeft balancedRight lean calm

theorem grow_red_right {newRight : LlrbNode κ ν} {black : Prop} (balancedLeft : Balanced left height)
    (balancedRight : Balanced newRight height) (calm : left.red = false) (red : ¬black) :
    Inserts (LlrbNode.node entry .red size left newRight).fixUp height black (entries left ++ entry :: entries newRight) := by
  cases lean : newRight.red with
  | false => exact (fixUp_red balancedLeft balancedRight calm lean red).inserts
  | true =>
    obtain ⟨rightEntry, inner, outer, rfl, balancedInner, balancedOuter, blackInner, blackOuter⟩ := balancedRight.eq_red lean
    refine ⟨_, fixUp_rotated calm blackOuter, ?_, fun black => absurd black red, by simp [entries, rep]⟩
    have sizes : left.size + 1 + (inner.size + 1 + outer.size) = (rep entry .red left inner).size + 1 + outer.size := by
      simp only [rep, size_node]
      omega
    rw [sizes]
    exact .overfull (.red balancedLeft balancedInner calm blackInner) balancedOuter rfl blackOuter

/-- The entry that an insertion leaves at its key: a key that is there already stays. -/
def stored (key : κ) (value : ν) (old : Option (κ × ν)) : κ × ν := ((old.map Prod.fst).getD key, value)

theorem innerInsert_spec [Std.OrientedCmp comparator] (balanced : Balanced n height)
    (divides : Cut.Divides (against comparator key) (entries n)) :
    Inserts (n.innerInsert comparator key value) height (n.red = false)
      (Cut.put (against comparator key) (stored key value) (entries n)) := by
  induction n generalizing height with
  | empty =>
    cases balanced with
    | empty => exact ⟨_, rfl, .whole (.red .empty .empty rfl rfl), fun _ => .red .empty .empty rfl rfl, rfl⟩
  | node entry color size left right ihLeft ihRight =>
    rw [innerInsert]
    have swapped : comparator entry.1 key = (against comparator key entry).swap := Std.OrientedCmp.eq_swap
    simp only [entries] at divides ⊢
    cases stands : against comparator key entry with
    | lt =>
      rw [swapped, stands, divides.put_lt stands]
      simp only [Ordering.swap_lt]
      cases balanced with
      | red balancedLeft balancedRight blackLeft blackRight =>
        obtain ⟨newLeft, ran, _, whole, rest⟩ := ihLeft balancedLeft divides.front
        rw [ran, Option.bind_some, ← rest]
        exact grow_red_left (whole blackLeft) balancedRight blackRight (by simp)
      | black balancedLeft balancedRight calm =>
        obtain ⟨newLeft, ran, grown, _, rest⟩ := ihLeft balancedLeft divides.front
        rw [ran, Option.bind_some, ← rest]
        exact grow_left grown balancedRight calm
    | eq =>
      rw [swapped, stands, divides.put_eq stands]
      simp only [Ordering.swap_eq]
      have stays : Balanced (.node (entry.1, value) color size left right) height := by
        cases balanced with
        | red balancedLeft balancedRight blackLeft blackRight => exact .red balancedLeft balancedRight blackLeft blackRight
        | black balancedLeft balancedRight calm => exact .black balancedLeft balancedRight calm
      exact ⟨_, rfl, .whole stays, fun _ => stays, rfl⟩
    | gt =>
      rw [swapped, stands, divides.put_gt stands]
      simp only [Ordering.swap_gt]
      cases balanced with
      | red balancedLeft balancedRight blackLeft blackRight =>
        obtain ⟨newRight, ran, _, whole, rest⟩ := ihRight balancedRight divides.back
        rw [ran, Option.bind_some, ← rest]
        exact grow_red_right balancedLeft (whole blackRight) blackLeft (by simp)
      | black balancedLeft balancedRight calm =>
        obtain ⟨newRight, ran, _, whole, rest⟩ := ihRight balancedRight divides.back
        rw [ran, Option.bind_some, ← rest]
        exact (fixUp_black balancedLeft (whole calm)).inserts

theorem innerErase_empty : (.empty : LlrbNode κ ν).innerErase comparator key = some .empty := by
  rw [innerErase]
  rfl

theorem innerErase_spec (ready : Erasable (against comparator key) n height) (divides : Cut.Divides (against comparator key) (entries n)) :
    Makes (n.innerErase comparator key) height (n.red = false) (Cut.without (against comparator key) (entries n)) := by
  induction counted : n.count using Nat.strongRecOn generalizing n height with
  | ind count ih =>
    subst counted
    rw [innerErase]
    simp only [Option.pbind_eq_bind]
    cases filled : n.isEmpty with
    | true =>
      rw [if_pos rfl]
      cases n with
      | node => cases filled
      | empty =>
        cases ready with
        | empty => exact ⟨.empty, rfl, .empty, fun _ => rfl, rfl⟩
        | red _ red => cases red
        | leans _ lean => cases lean
    | false =>
      have counted := count_pos (Bool.eq_false_iff.mp filled)
      obtain ⟨top, found⟩ : ∃ top, n.nodeEntry = some top := by
        cases n with
        | empty => cases filled
        | node top => exact ⟨top, rfl⟩
      rw [if_neg Bool.false_ne_true, found, Option.bind_some]
      by_cases before : comparator key top.1 = .lt
      · rw [if_pos before]
        obtain ⟨balanced, lean⟩ : Balanced n height ∧ (n.red ∨ n.left.red) := by
          cases ready with
          | empty => cases filled
          | red balanced red => exact ⟨balanced, Or.inl red⟩
          | leans balanced lean => exact ⟨balanced, Or.inr lean⟩
          | borrowed _ _ _ _ reaches =>
            cases found
            exact absurd before reaches
        cases leftFilled : n.left.isEmpty with
        | true =>
          obtain ⟨rfl, entry, rfl⟩ := leaf_of_left_empty balanced lean leftFilled
          cases found
          rw [if_neg (by simp), Option.bind_some, left_node, innerErase_empty]
          have kept : Cut.without (against comparator key) (entries (.node top .red 1 .empty .empty)) = [top] :=
            divides.without_lt before
          rw [kept]
          change Makes (LlrbNode.node top .red 1 .empty .empty).fixUp _ _ _
          exact ⟨_, fixUp_calm rfl rfl, balanced, fun black => Bool.noConfusion black, rfl⟩
        | false =>
          obtain ⟨entry, color, size, left, right, inner, moved, balancedLeft, readyLeft, same, above, takes⟩ :=
            descend_left balanced lean leftFilled
          have smaller : left.count < n.count := by
            have counted := count_if (fun _ => count_moveRedLeft) moved
            simp only [LlrbNode.count] at counted
            omega
          rw [same] at divides ⊢
          have ready : Erasable (against comparator key) left inner := by
            rcases readyLeft with red | lean
            · exact .red balancedLeft red
            · exact .leans balancedLeft lean
          have stands : against comparator key entry = .lt := by
            rcases above top found with rfl | member
            · exact before
            · by_contra reaches
              cases before.symm.trans (divides.before reaches top member)
          obtain ⟨newLeft, ran, balancedNew, black, rest⟩ := ih left.count smaller ready divides.front rfl
          rw [Bool.not_false, Bool.true_and, moved, Option.bind_some, left_node, ran, divides.without_lt stands, ← rest]
          exact takes newLeft balancedNew black
      · rw [if_neg before]
        obtain ⟨turned, entry, color, size, left, right, inner, turn, moved, readyRight, same, reaches, bottom, held, takes⟩ :=
          descend_right ready found before divides
        have smaller : right.count < n.count := by
          have first := count_if (fun _ => count_rotateRight) turn
          have second := count_if (fun _ => count_moveRedRight) moved
          simp only [LlrbNode.count] at second
          omega
        rw [turn, Option.bind_some, moved, Option.bind_some]
        rw [same] at divides ⊢
        change Makes (if against comparator key entry = .eq then _ else _) _ _ _
        by_cases equal : against comparator key entry = .eq
        · rw [if_pos equal, right_node, divides.without_eq equal]
          cases filledRight : right.isEmpty with
          | true =>
            obtain ⟨rfl, nothing⟩ := bottom filledRight
            cases right with
            | node => cases filledRight
            | empty => exact ⟨.empty, rfl, .empty, fun _ => rfl, by rw [nothing]; rfl⟩
          | false =>
            obtain ⟨balancedRight, lean⟩ := held equal filledRight
            obtain ⟨newRight, ran, balancedNew, black, rest⟩ := removeMin_spec balancedRight lean
            obtain ⟨smallest, tail, listed⟩ : ∃ smallest tail, entries right = smallest :: tail := by
              cases right with
              | empty => cases filledRight
              | node => exact List.exists_cons_of_ne_nil (by simp [entries])
            rw [if_neg Bool.false_ne_true, min?_eq_head?, listed, List.head?_cons, Option.bind_some, ran]
            have made := takes smallest newRight balancedNew black
            rw [rest, listed] at made
            exact made
        · rw [if_neg equal, right_node]
          have stands : against comparator key entry = .gt := by
            cases stands : against comparator key entry with
            | lt => exact absurd stands reaches
            | eq => exact absurd stands equal
            | gt => rfl
          obtain ⟨newRight, ran, balancedNew, black, rest⟩ := ih right.count smaller readyRight divides.back rfl
          rw [ran, divides.without_gt stands, ← rest]
          exact takes entry newRight balancedNew black

section Toggle

def toggle : LlrbNode κ ν → LlrbNode κ ν
  | .empty => .empty
  | .node entry color size left right => .node entry color.opposite size left right

@[simp] theorem isEmpty_toggle (n : LlrbNode κ ν) : (toggle n).isEmpty = n.isEmpty := by cases n <;> rfl

@[simp] theorem left_toggle (n : LlrbNode κ ν) : (toggle n).left = n.left := by cases n <;> rfl

@[simp] theorem right_toggle (n : LlrbNode κ ν) : (toggle n).right = n.right := by cases n <;> rfl

@[simp] theorem nodeEntry_toggle (n : LlrbNode κ ν) : (toggle n).nodeEntry = n.nodeEntry := by cases n <;> rfl

@[simp] theorem setEntry_toggle (n : LlrbNode κ ν) (entry : κ × ν) : (toggle n).setEntry entry = toggle (n.setEntry entry) := by
  cases n <;> rfl

@[simp] theorem setLeft_toggle (n newLeft : LlrbNode κ ν) : (toggle n).setLeft newLeft = toggle (n.setLeft newLeft) := by
  cases n <;> rfl

@[simp] theorem setRight_toggle (n newRight : LlrbNode κ ν) : (toggle n).setRight newRight = toggle (n.setRight newRight) := by
  cases n <;> rfl

@[simp] theorem fixRootColor_toggle (n : LlrbNode κ ν) : (toggle n).fixRootColor = n.fixRootColor := by
  cases n with
  | empty => rfl
  | node entry color size left right => cases color <;> rfl

@[simp] theorem rotateLeft_toggle (n : LlrbNode κ ν) : (toggle n).rotateLeft = n.rotateLeft.map toggle := by
  cases n with
  | empty => rfl
  | node entry color size left right => cases right <;> rfl

@[simp] theorem rotateRight_toggle (n : LlrbNode κ ν) : (toggle n).rotateRight = n.rotateRight.map toggle := by
  cases n with
  | empty => rfl
  | node entry color size left right => cases left <;> rfl

@[simp] theorem flipColor_toggle (n : LlrbNode κ ν) : (toggle n).flipColor = n.flipColor.map toggle := by
  cases n with
  | empty => rfl
  | node entry color size left right =>
    cases left with
    | empty => rfl
    | node => cases right <;> rfl

theorem toggle_if {asked : Prop} [Decidable asked] {move toggled : Option (LlrbNode κ ν)} (moves : toggled = move.map toggle) :
    (if asked then toggled else some (toggle n)) = (if asked then move else some n).map toggle := by
  split
  next => exact moves
  next => rfl

theorem toggle_bind {first : Option (LlrbNode κ ν)} {step : LlrbNode κ ν → Option (LlrbNode κ ν)}
    (blind : ∀ n, step (toggle n) = (step n).map toggle) : (first.map toggle).bind step = (first.bind step).map toggle := by
  rw [Option.bind_map, Option.map_bind]
  exact congrArg first.bind (funext blind)

@[simp] theorem fixUp_toggle (n : LlrbNode κ ν) : (toggle n).fixUp = n.fixUp.map toggle := by
  cases n with
  | empty => rfl
  | node entry color size left right =>
    change (toggle (rep entry color left right)).rebalance = (rep entry color left right).rebalance.map toggle
    simp only [rebalance, left_toggle, right_toggle]
    rw [toggle_if (rotateLeft_toggle _)]
    apply toggle_bind
    intro rotated
    simp only [left_toggle]
    rw [toggle_if (rotateRight_toggle _)]
    apply toggle_bind
    intro turned
    simp only [left_toggle, right_toggle]
    exact toggle_if (flipColor_toggle _)

@[simp] theorem moveRedLeft_toggle (n : LlrbNode κ ν) : (toggle n).moveRedLeft = n.moveRedLeft.map toggle := by
  simp only [moveRedLeft, flipColor_toggle]
  apply toggle_bind
  intro flipped
  simp only [right_toggle, setRight_toggle, rotateLeft_toggle]
  apply toggle_if
  rw [Option.map_bind]
  apply congrArg
  funext newRight
  exact toggle_bind flipColor_toggle

@[simp] theorem moveRedRight_toggle (n : LlrbNode κ ν) : (toggle n).moveRedRight = n.moveRedRight.map toggle := by
  simp only [moveRedRight, flipColor_toggle]
  apply toggle_bind
  intro flipped
  simp only [left_toggle, rotateRight_toggle]
  apply toggle_if
  exact toggle_bind flipColor_toggle

theorem innerErase_toggle (n : LlrbNode κ ν) : (toggle n).innerErase comparator key = (n.innerErase comparator key).map toggle := by
  rw [innerErase, innerErase]
  simp only [Option.pbind_eq_bind, isEmpty_toggle, nodeEntry_toggle, left_toggle, moveRedLeft_toggle, rotateRight_toggle]
  cases n with
  | empty => rfl
  | node top color size left right =>
    simp only [isEmpty_node, Bool.false_eq_true, if_false, nodeEntry_node, Option.bind_some]
    split
    next =>
      rw [toggle_if rfl]
      apply toggle_bind
      intro moved
      simp only [left_toggle, setLeft_toggle, fixUp_toggle, Option.map_bind]
      rfl
    next =>
      rw [toggle_if rfl]
      apply toggle_bind
      intro turned
      simp only [right_toggle, moveRedRight_toggle]
      rw [toggle_if rfl]
      apply toggle_bind
      intro moved
      simp only [nodeEntry_toggle, right_toggle, setEntry_toggle, setRight_toggle, fixUp_toggle]
      rw [Option.map_bind]
      apply congrArg
      funext entry
      simp only [Function.comp_apply]
      split
      next =>
        split
        next => rfl
        next => simp only [Option.map_bind, Function.comp_def]
      next => simp only [Option.map_bind, Function.comp_def]

theorem erase_toggle (n : LlrbNode κ ν) : (toggle n).erase comparator key = n.erase comparator key := by
  rw [LlrbNode.erase, innerErase_toggle, Option.map_map]
  exact congrArg (fun settle => (n.innerErase comparator key).map settle) (funext fixRootColor_toggle)

end Toggle

theorem makes_root {outcome : Option (LlrbNode κ ν)} {black : Prop} {held : List (κ × ν)} (makes : Makes outcome height black held) :
    ∃ next height, outcome.map fixRootColor = some next ∧ Balanced next height ∧ next.red = false ∧ entries next = held := by
  obtain ⟨next, rfl, balanced, _, same⟩ := makes
  cases red : next.red with
  | false => exact ⟨next, height, by simp [fixRootColor, red], balanced, red, same⟩
  | true =>
    refine ⟨next.setColor .black, height + 1, by simp [fixRootColor, red], balanced.blacken red, ?_, ?_⟩
    · cases next <;> rfl
    · rw [← same]
      cases next <;> rfl

theorem insert_spec [Std.OrientedCmp comparator] (balanced : Balanced n height) (black : n.red = false)
    (divides : Cut.Divides (against comparator key) (entries n)) :
    ∃ next height, n.insert comparator key value = some next ∧ Balanced next height ∧ next.red = false ∧
      entries next = Cut.put (against comparator key) (stored key value) (entries n) := by
  obtain ⟨next, ran, _, whole, same⟩ := @innerInsert_spec _ _ _ _ comparator key value _ balanced divides
  exact makes_root ⟨next, ran, whole black, fun red : False => red.elim, same⟩

/-- A root need not be turned red before an erasure, as it is turned black after it. -/
theorem erase_spec (balanced : Balanced n height) (black : n.red = false) (divides : Cut.Divides (against comparator key) (entries n)) :
    ∃ next height, n.erase comparator key = some next ∧ Balanced next height ∧ next.red = false ∧
      entries next = Cut.without (against comparator key) (entries n) := by
  cases lean : n.left.red with
  | true => exact makes_root (innerErase_spec (.leans balanced lean) divides)
  | false =>
    cases height with
    | zero =>
      cases balanced.eq_empty black
      exact makes_root (innerErase_spec .empty divides)
    | succ height =>
      obtain ⟨entry, left, right, rfl, balancedLeft, balancedRight, calm⟩ := balanced.eq_black black
      have red := @Balanced.red _ _ entry _ _ _ balancedLeft balancedRight lean calm
      rw [← erase_toggle]
      exact makes_root (innerErase_spec (.red red rfl) divides)

end Keyed

end FireChat.Core.Proofs
