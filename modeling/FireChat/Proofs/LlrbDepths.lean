import FireChat.Proofs.SortedMaps
import Mathlib

/-! Lookups and iterators stay logarithmic: a descent into a tree, and the stack of an
iterator over it, are no longer than twice the logarithm of its size. -/

namespace FireChat.Core.Proofs

open LlrbNode LlrbNodeIterator

variable {κ ν : Type} {n root : LlrbNode κ ν} {height bound : Nat} {stack : List (LlrbNode κ ν)}

def depth : LlrbNode κ ν → Nat
  | .empty => 0
  | .node _ _ _ left right => max (depth left) (depth right) + 1

/-- No two red nodes follow each other on the way down. -/
theorem Balanced.depth_le (balanced : Balanced n height) : depth n ≤ 2 * height + n.red.toNat := by
  induction balanced with
  | empty => simp [depth]
  | red _ _ blackLeft blackRight left right =>
    rw [blackLeft] at left
    rw [blackRight] at right
    simp only [depth, red_node, decide_true, Bool.toNat_true, Bool.toNat_false] at left right ⊢
    omega
  | @black entry low high height _ _ _ left right =>
    have atMost : ∀ node : LlrbNode κ ν, node.red.toNat ≤ 1 := fun node => Bool.toNat_le node.red
    have first := atMost low
    have second := atMost high
    simp only [depth]
    omega

theorem Balanced.pow_le (balanced : Balanced n height) : 2 ^ height ≤ (entries n).length + 1 := by
  induction balanced with
  | empty => simp [entries]
  | red _ _ _ _ left right =>
    simp only [entries, List.length_append, List.length_cons]
    omega
  | black _ _ _ left right =>
    rw [Nat.pow_succ]
    simp only [entries, List.length_append, List.length_cons]
    omega

theorem Balanced.depth_log (balanced : Balanced root height) (black : root.red = false) :
    depth root ≤ 2 * Nat.log 2 (root.size + 1) := by
  have deep := balanced.depth_le
  have tall : height ≤ Nat.log 2 (root.size + 1) := by
    apply Nat.le_log_of_pow_le (by omega)
    rw [balanced.size_eq]
    exact balanced.pow_le
  rw [black] at deep
  simp only [Bool.toNat_false] at deep
  omega

structure Climbs (bound : Nat) (stack : List (LlrbNode κ ν)) : Prop where
  higher : stack.Pairwise fun lower upper => depth lower < depth upper
  inside : ∀ node ∈ stack, 1 ≤ depth node ∧ depth node ≤ bound

theorem Climbs.length_le (climbs : Climbs bound stack) : stack.length ≤ bound := by
  have distinct : (stack.map depth).Nodup := by
    apply List.pairwise_map.mpr
    apply climbs.higher.imp
    intro lower upper below same
    omega
  have within : stack.map depth ⊆ List.range' 1 bound := by
    intro level member
    obtain ⟨node, held, rfl⟩ := List.mem_map.mp member
    obtain ⟨least, most⟩ := climbs.inside node held
    apply List.mem_range'_1.mpr
    omega
  have counted := (List.Nodup.subperm distinct within).length_le
  rw [List.length_map, List.length_range'] at counted
  exact counted

theorem Climbs.push {entry : κ × ν} {color : Color} {size : Nat} {left right : LlrbNode κ ν} (climbs : Climbs bound stack)
    (low : depth (.node entry color size left right) ≤ bound)
    (below : ∀ node ∈ stack, depth (.node entry color size left right) < depth node) :
    Climbs bound (.node entry color size left right :: stack) := by
  refine ⟨List.pairwise_cons.mpr ⟨below, climbs.higher⟩, ?_⟩
  intro node member
  rcases List.mem_cons.mp member with rfl | member
  · refine ⟨?_, low⟩
    simp only [depth]
    omega
  · exact climbs.inside node member

section Children

variable {entry : κ × ν} {color : Color} {size : Nat} {left right : LlrbNode κ ν}

theorem depth_left_lt : depth left < depth (.node entry color size left right) := by
  simp only [depth]
  omega

theorem depth_right_lt : depth right < depth (.node entry color size left right) := by
  simp only [depth]
  omega

end Children

theorem below_pushed {top : LlrbNode κ ν} (deeper : depth n < depth top) (below : ∀ node ∈ stack, depth top < depth node) :
    ∀ node ∈ top :: stack, depth n < depth node := by
  intro node member
  rcases List.mem_cons.mp member with rfl | member
  · exact deeper
  · exact deeper.trans (below node member)

theorem climbs_accumulateLeft (climbs : Climbs bound stack) (low : depth n ≤ bound) (below : ∀ node ∈ stack, depth n < depth node) :
    Climbs bound (accumulateLeft stack n) := by
  induction n generalizing stack with
  | empty => exact climbs
  | node entry color size left right ihLeft _ =>
    exact ihLeft (climbs.push low below) (depth_left_lt.le.trans low) (below_pushed depth_left_lt below)

theorem climbs_lowerBound {comparator : κ → κ → Ordering} {key : κ} (climbs : Climbs bound stack) (low : depth n ≤ bound)
    (below : ∀ node ∈ stack, depth n < depth node) : Climbs bound (lowerBound comparator key stack n) := by
  induction n generalizing stack with
  | empty => exact climbs
  | node entry color size left right ihLeft ihRight =>
    unfold lowerBound
    cases comparator key entry.1 with
    | lt => exact ihLeft (climbs.push low below) (depth_left_lt.le.trans low) (below_pushed depth_left_lt below)
    | eq => exact climbs.push low below
    | gt =>
      apply ihRight climbs (depth_right_lt.le.trans low)
      intro node member
      exact depth_right_lt.trans (below node member)

/-- The iterators that a tree gives out, and what increments make of them. -/
inductive Iterates (comparator : κ → κ → Ordering) (root : LlrbNode κ ν) : LlrbNodeIterator κ ν → Prop
  | begin : Iterates comparator root (begin root)
  | lowerBound (key : κ) : Iterates comparator root ⟨lowerBound comparator key [] root⟩
  | advance {iterator next : LlrbNodeIterator κ ν} : Iterates comparator root iterator → iterator.advance = some next →
      Iterates comparator root next

theorem Iterates.climbs {comparator : κ → κ → Ordering} {iterator : LlrbNodeIterator κ ν} (iterates : Iterates comparator root iterator) :
    Climbs (depth root) iterator.stack := by
  have nothing : Climbs (depth root) ([] : List (LlrbNode κ ν)) := ⟨List.Pairwise.nil, fun _ member => by cases member⟩
  induction iterates with
  | begin => exact climbs_accumulateLeft nothing le_rfl fun _ member => by cases member
  | lowerBound key => exact climbs_lowerBound nothing le_rfl fun _ member => by cases member
  | @advance iterator next _ advanced ih =>
    obtain ⟨stack⟩ := iterator
    cases stack with
    | nil => cases advanced
    | cons node stack =>
      cases advanced
      obtain ⟨above, higher⟩ := List.pairwise_cons.mp ih.higher
      have rest : Climbs (depth root) stack := ⟨higher, fun other member => ih.inside other (List.mem_cons_of_mem _ member)⟩
      have shallow : depth node.right < depth node := by
        cases node with
        | empty => simpa [depth] using (ih.inside _ List.mem_cons_self).1
        | node => exact depth_right_lt
      have most := (ih.inside node List.mem_cons_self).2
      apply climbs_accumulateLeft rest (by omega)
      intro other member
      have higher := above other member
      omega

variable {comparator : κ → κ → Ordering} [Std.TransCmp comparator] [DecidableEq ν]

/-- Whatever was put into a map and taken out of it, its tree is no deeper than twice the
logarithm of its size, and no iterator over it ever keeps a longer stack. -/
theorem descents_stay_logarithmic {edits : List (Edit κ ν)}
    (ran : Transition.run (Edit.applyTo comparator) SortedMap.empty edits = some (.tree root)) :
    depth root ≤ 2 * Nat.log 2 (root.size + 1) ∧ ∀ iterator, Iterates comparator root iterator →
      iterator.stack.length ≤ 2 * Nat.log 2 (root.size + 1) := by
  obtain ⟨map, again, valid, _⟩ := @run_assigns _ _ comparator _ _ edits
  cases again.symm.trans ran
  cases valid with
  | tree balanced black _ _ =>
    have deep := balanced.depth_log black
    exact ⟨deep, fun iterator iterates => iterates.climbs.length_le.trans deep⟩

def ascendingKeys : List (Edit Nat Nat) := (List.range 26).map fun key => .insert key key

theorem ascending_keys_stay_logarithmic :
    ∃ root : LlrbNode Nat Nat, Transition.run (Edit.applyTo compare) SortedMap.empty ascendingKeys = some (.tree root) ∧
      depth root ≤ 2 * Nat.log 2 (root.size + 1) ∧ ∀ iterator, Iterates compare root iterator →
        iterator.stack.length ≤ 2 * Nat.log 2 (root.size + 1) := by
  obtain ⟨root, ran⟩ : ∃ root, Transition.run (Edit.applyTo compare) SortedMap.empty ascendingKeys = some (.tree root) := ⟨_, rfl⟩
  exact ⟨root, ran, descents_stay_logarithmic ran⟩

end FireChat.Core.Proofs
