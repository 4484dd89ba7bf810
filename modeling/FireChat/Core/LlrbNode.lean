import Mathlib.Data.List.Basic

/-! The left-leaning red-black trees behind the larger immutable maps of the Firestore
core, and the iterators over them. An operation is `none` where the source would read the
entry of the shared empty node or recolour a copy of it. -/

namespace FireChat.Core

inductive Color where
  | black
  | red
deriving DecidableEq, Repr

/-- `OppositeColor` -/
def Color.opposite : Color → Color
  | .red => .black
  | .black => .red

/-- Only the empty node has size 0, since every other one counts itself. -/
inductive LlrbNode (κ ν : Type) where
  | empty
  | node (entry : κ × ν) (color : Color) (size : Nat) (left right : LlrbNode κ ν)
deriving DecidableEq, Repr

namespace LlrbNode

variable {κ ν : Type}

def isEmpty : LlrbNode κ ν → Bool
  | empty => true
  | node _ _ _ _ _ => false

def size : LlrbNode κ ν → Nat
  | empty => 0
  | node _ _ size _ _ => size

def red : LlrbNode κ ν → Bool
  | empty => false
  | node _ color _ _ _ => color = .red

/-- The links of the empty node lead back to it. -/
def left : LlrbNode κ ν → LlrbNode κ ν
  | empty => empty
  | node _ _ _ left _ => left

def right : LlrbNode κ ν → LlrbNode κ ν
  | empty => empty
  | node _ _ _ _ right => right

/-- The constructor of `Rep` that counts the entries. -/
def rep (entry : κ × ν) (color : Color) (left right : LlrbNode κ ν) : LlrbNode κ ν :=
  node entry color (left.size + 1 + right.size) left right

def setColor (color : Color) : LlrbNode κ ν → LlrbNode κ ν
  | empty => empty
  | node entry _ size left right => node entry color size left right

section Fields

variable {entry : κ × ν} {color : Color} {count : Nat} {low high : LlrbNode κ ν}

@[simp] theorem isEmpty_empty : (empty : LlrbNode κ ν).isEmpty = true := rfl

@[simp] theorem isEmpty_node : (node entry color count low high).isEmpty = false := rfl

@[simp] theorem size_empty : (empty : LlrbNode κ ν).size = 0 := rfl

@[simp] theorem size_node : (node entry color count low high).size = count := rfl

@[simp] theorem red_empty : (empty : LlrbNode κ ν).red = false := rfl

@[simp] theorem red_node : (node entry color count low high).red = decide (color = .red) := rfl

@[simp] theorem left_empty : (empty : LlrbNode κ ν).left = empty := rfl

@[simp] theorem left_node : (node entry color count low high).left = low := rfl

@[simp] theorem right_empty : (empty : LlrbNode κ ν).right = empty := rfl

@[simp] theorem right_node : (node entry color count low high).right = high := rfl

end Fields

def nodeEntry : LlrbNode κ ν → Option (κ × ν)
  | empty => none
  | node entry _ _ _ _ => some entry

@[simp] theorem nodeEntry_node {entry : κ × ν} {color : Color} {count : Nat} {low high : LlrbNode κ ν} :
    (node entry color count low high).nodeEntry = some entry := rfl

def setEntry (n : LlrbNode κ ν) (entry : κ × ν) : LlrbNode κ ν :=
  match n with
  | empty => empty
  | node _ color size left right => node entry color size left right

def setLeft (n newLeft : LlrbNode κ ν) : LlrbNode κ ν :=
  match n with
  | empty => empty
  | node entry color size _ right => node entry color size newLeft right

def setRight (n newRight : LlrbNode κ ν) : LlrbNode κ ν :=
  match n with
  | empty => empty
  | node entry color size left _ => node entry color size left newRight

def rotateLeft : LlrbNode κ ν → Option (LlrbNode κ ν)
  | node entry color size left (node rightEntry _ _ inner outer) =>
    some (node rightEntry color size (rep entry .red left inner) outer)
  | _ => none

def rotateRight : LlrbNode κ ν → Option (LlrbNode κ ν)
  | node entry color size (node leftEntry _ _ outer inner) right =>
    some (node leftEntry color size outer (rep entry .red inner right))
  | _ => none

def flipColor : LlrbNode κ ν → Option (LlrbNode κ ν)
  | node entry color size (node leftEntry leftColor leftSize a b) (node rightEntry rightColor rightSize c d) =>
    some (node entry color.opposite size (node leftEntry leftColor.opposite leftSize a b)
      (node rightEntry rightColor.opposite rightSize c d))
  | _ => none

/-- What `FixUp` does once the size is set. -/
def rebalance (n : LlrbNode κ ν) : Option (LlrbNode κ ν) :=
  (if n.right.red && !n.left.red then n.rotateLeft else some n).bind fun n =>
    (if n.left.red && n.left.left.red then n.rotateRight else some n).bind fun n =>
      if n.left.red && n.right.red then n.flipColor else some n

def fixUp : LlrbNode κ ν → Option (LlrbNode κ ν)
  | empty => none
  | node entry color _ left right => (rep entry color left right).rebalance

def moveRedLeft (n : LlrbNode κ ν) : Option (LlrbNode κ ν) :=
  n.flipColor.bind fun n =>
    if n.right.left.red then
      n.right.rotateRight.bind fun newRight => (n.setRight newRight).rotateLeft.bind flipColor
    else some n

def moveRedRight (n : LlrbNode κ ν) : Option (LlrbNode κ ν) :=
  n.flipColor.bind fun n => if n.left.left.red then n.rotateRight.bind flipColor else some n

def fixRootColor (n : LlrbNode κ ν) : LlrbNode κ ν := if n.red then n.setColor .black else n

def innerInsert (comparator : κ → κ → Ordering) (key : κ) (value : ν) : LlrbNode κ ν → Option (LlrbNode κ ν)
  | empty => some (rep (key, value) .red empty empty)
  | node entry color size left right =>
    match comparator entry.1 key with
    | .gt => (left.innerInsert comparator key value).bind fun newLeft => (node entry color size newLeft right).fixUp
    | .lt => (right.innerInsert comparator key value).bind fun newRight => (node entry color size left newRight).fixUp
    | .eq => some (node (entry.1, value) color size left right)

def insert (comparator : κ → κ → Ordering) (key : κ) (value : ν) (n : LlrbNode κ ν) : Option (LlrbNode κ ν) :=
  (n.innerInsert comparator key value).map fixRootColor

/-- The entry of `min` -/
def min? : LlrbNode κ ν → Option (κ × ν)
  | empty => none
  | node entry _ _ left _ => if left.isEmpty then some entry else left.min?

/-- The entry of `max` -/
def max? : LlrbNode κ ν → Option (κ × ν)
  | empty => none
  | node entry _ _ _ right => if right.isEmpty then some entry else right.max?

section Count

/-- How many nodes there are, whatever the sizes say. -/
def count : LlrbNode κ ν → Nat
  | empty => 0
  | node _ _ _ left right => left.count + 1 + right.count

theorem count_left_lt {n : LlrbNode κ ν} (filled : 0 < n.count) : n.left.count < n.count := by
  cases n with
  | empty => cases filled
  | node entry color size left right => simp only [left_node, count]; omega

theorem count_right_lt {n : LlrbNode κ ν} (filled : 0 < n.count) : n.right.count < n.count := by
  cases n with
  | empty => cases filled
  | node entry color size left right => simp only [right_node, count]; omega

theorem count_rotateLeft {n next : LlrbNode κ ν} (rotated : n.rotateLeft = some next) : next.count = n.count := by
  unfold rotateLeft at rotated
  split at rotated
  next => cases rotated; simp only [count, rep]; omega
  next => cases rotated

theorem count_rotateRight {n next : LlrbNode κ ν} (rotated : n.rotateRight = some next) : next.count = n.count := by
  unfold rotateRight at rotated
  split at rotated
  next => cases rotated; simp only [count, rep]; omega
  next => cases rotated

theorem count_flipColor {n next : LlrbNode κ ν} (flipped : n.flipColor = some next) : next.count = n.count := by
  unfold flipColor at flipped
  split at flipped
  next => cases flipped; rfl
  next => cases flipped

theorem count_setRight {n newRight : LlrbNode κ ν} (same : newRight.count = n.right.count) :
    (n.setRight newRight).count = n.count := by
  cases n with
  | empty => rfl
  | node entry color size left right => simp only [setRight, count, same, right_node]

theorem count_moveRedLeft {n next : LlrbNode κ ν} (moved : n.moveRedLeft = some next) : next.count = n.count := by
  obtain ⟨flipped, flip, moved⟩ := Option.bind_eq_some_iff.mp moved
  rw [← count_flipColor flip]
  split at moved
  next =>
    obtain ⟨newRight, rotated, moved⟩ := Option.bind_eq_some_iff.mp moved
    obtain ⟨turned, turn, again⟩ := Option.bind_eq_some_iff.mp moved
    rw [count_flipColor again, count_rotateLeft turn, count_setRight (count_rotateRight rotated)]
  next => cases moved; rfl

theorem count_moveRedRight {n next : LlrbNode κ ν} (moved : n.moveRedRight = some next) : next.count = n.count := by
  obtain ⟨flipped, flip, moved⟩ := Option.bind_eq_some_iff.mp moved
  rw [← count_flipColor flip]
  split at moved
  next =>
    obtain ⟨turned, turn, again⟩ := Option.bind_eq_some_iff.mp moved
    rw [count_flipColor again, count_rotateRight turn]
  next => cases moved; rfl

theorem count_if {n next : LlrbNode κ ν} {asked : Prop} [Decidable asked] {move : Option (LlrbNode κ ν)}
    (keeps : ∀ next, move = some next → next.count = n.count) (moved : (if asked then move else some n) = some next) :
    next.count = n.count := by
  split at moved
  next => exact keeps next moved
  next => cases moved; rfl

theorem count_pos {n : LlrbNode κ ν} (filled : ¬n.isEmpty = true) : 0 < n.count := by
  cases n with
  | empty => exact absurd rfl filled
  | node entry color size left right => simp only [count]; omega

theorem count_pos_of_left {n : LlrbNode κ ν} (filled : ¬n.left.isEmpty = true) : 0 < n.count := by
  cases n with
  | empty => exact absurd rfl filled
  | node entry color size left right => exact count_pos (fun empty => by cases empty)

end Count

def removeMin (n : LlrbNode κ ν) : Option (LlrbNode κ ν) :=
  if n.left.isEmpty then some empty
  else
    (if !n.left.red && !n.left.left.red then n.moveRedLeft else some n).pbind fun moved _ =>
      moved.left.removeMin.bind fun newLeft => (moved.setLeft newLeft).fixUp
termination_by n.count
decreasing_by
  have same : moved.count = n.count := count_if (fun _ => count_moveRedLeft) (by assumption)
  rw [← same]
  apply count_left_lt
  rw [same]
  exact count_pos_of_left (by assumption)

def innerErase (comparator : κ → κ → Ordering) (key : κ) (n : LlrbNode κ ν) : Option (LlrbNode κ ν) :=
  if n.isEmpty then some empty
  else
    n.nodeEntry.bind fun entry =>
      if comparator key entry.1 = .lt then
        (if !n.left.isEmpty && !n.left.red && !n.left.left.red then n.moveRedLeft else some n).pbind fun moved _ =>
          (moved.left.innerErase comparator key).bind fun newLeft => (moved.setLeft newLeft).fixUp
      else
        (if n.left.red then n.rotateRight else some n).pbind fun turned _ =>
          (if !turned.right.isEmpty && !turned.right.red && !turned.right.left.red then turned.moveRedRight
            else some turned).pbind fun moved _ =>
            moved.nodeEntry.bind fun entry =>
              if comparator key entry.1 = .eq then
                if moved.right.isEmpty then some empty
                else
                  moved.right.min?.bind fun smallest =>
                    moved.right.removeMin.bind fun newRight => ((moved.setEntry smallest).setRight newRight).fixUp
              else (moved.right.innerErase comparator key).bind fun newRight => (moved.setRight newRight).fixUp
termination_by n.count
decreasing_by
  · have same : moved.count = n.count := count_if (fun _ => count_moveRedLeft) (by assumption)
    rw [← same]
    apply count_left_lt
    rw [same]
    exact count_pos (by assumption)
  · have first : turned.count = n.count := count_if (fun _ => count_rotateRight) (by assumption)
    have second : moved.count = turned.count := count_if (fun _ => count_moveRedRight) (by assumption)
    have same := second.trans first
    rw [← same]
    apply count_right_lt
    rw [same]
    exact count_pos (by assumption)

def erase (comparator : κ → κ → Ordering) (key : κ) (n : LlrbNode κ ν) : Option (LlrbNode κ ν) :=
  (n.innerErase comparator key).map fixRootColor

section Lookup

variable (comparator : κ → κ → Ordering) (key : κ)

/-- `TreeSortedMap::contains` -/
def contains : LlrbNode κ ν → Bool
  | empty => false
  | node entry _ _ left right =>
    match comparator key entry.1 with
    | .eq => true
    | .lt => left.contains
    | .gt => right.contains

/-- `TreeSortedMap::find_index`, with `npos` as `none`. -/
def findIndex (prunedNodes : Nat) : LlrbNode κ ν → Option Nat
  | empty => none
  | node entry _ _ left right =>
    match comparator key entry.1 with
    | .eq => some (prunedNodes + left.size)
    | .lt => left.findIndex prunedNodes
    | .gt => right.findIndex (prunedNodes + (left.size + 1))

end Lookup

end LlrbNode

/-- The top of the stack is its head. -/
structure LlrbNodeIterator (κ ν : Type) where
  stack : List (LlrbNode κ ν)
deriving DecidableEq, Repr

namespace LlrbNodeIterator

variable {κ ν : Type}

def accumulateLeft (stack : List (LlrbNode κ ν)) : LlrbNode κ ν → List (LlrbNode κ ν)
  | .empty => stack
  | .node entry color size left right => accumulateLeft (.node entry color size left right :: stack) left

def begin (root : LlrbNode κ ν) : LlrbNodeIterator κ ν := ⟨accumulateLeft [] root⟩

def lowerBound (comparator : κ → κ → Ordering) (key : κ) (stack : List (LlrbNode κ ν)) : LlrbNode κ ν → List (LlrbNode κ ν)
  | .empty => stack
  | .node entry color size left right =>
    match comparator key entry.1 with
    | .eq => .node entry color size left right :: stack
    | .lt => lowerBound comparator key (.node entry color size left right :: stack) left
    | .gt => lowerBound comparator key stack right

def isEnd (iterator : LlrbNodeIterator κ ν) : Bool := iterator.stack.isEmpty

def get (iterator : LlrbNodeIterator κ ν) : Option (κ × ν) := iterator.stack.head?.bind LlrbNode.nodeEntry

/-- `operator++`, which asserts that there is an entry to leave. -/
def advance (iterator : LlrbNodeIterator κ ν) : Option (LlrbNodeIterator κ ν) :=
  match iterator.stack with
  | [] => none
  | node :: stack => some ⟨accumulateLeft stack node.right⟩

end LlrbNodeIterator

/-- `TreeSortedMap::find`, with `end()` as `none`. -/
def LlrbNode.find {κ ν : Type} (comparator : κ → κ → Ordering) (key : κ) (root : LlrbNode κ ν) : Option (κ × ν) :=
  (LlrbNodeIterator.mk (LlrbNodeIterator.lowerBound comparator key [] root)).get.filter fun entry => comparator key entry.1 = .eq

end FireChat.Core
