import FireChat.Core.LlrbNode
import FireChat.Library.Transition

/-! The immutable maps of the Firestore core: an array while they are small, a tree
once they have outgrown it. -/

namespace FireChat.Core

/-- `kFixedSize` -/
def fixedSize : Nat := 25

variable {κ ν : Type} (comparator : κ → κ → Ordering) (key : κ)

namespace ArraySortedMap

/-- What `FixedArray::append` asserts. -/
def fixedArray (entries : List (κ × ν)) : Option (List (κ × ν)) := if entries.length ≤ fixedSize then some entries else none

def find (entries : List (κ × ν)) : Option (κ × ν) := entries.find? fun entry => comparator key entry.1 = .eq

/-- `npos` is `none`. -/
def findIndex (entries : List (κ × ν)) : Option Nat := entries.findIdx? fun entry => comparator key entry.1 = .eq

/-- The entries from the lower bound on. -/
def lowerBound (entries : List (κ × ν)) : List (κ × ν) := entries.dropWhile fun entry => comparator entry.1 key = .lt

def insert [DecidableEq ν] (value : ν) (entries : List (κ × ν)) : Option (List (κ × ν)) :=
  let front := entries.takeWhile fun entry => comparator entry.1 key = .lt
  match lowerBound comparator key entries with
  | [] => fixedArray (front ++ [(key, value)])
  | pos :: rest =>
    if comparator key pos.1 = .eq then
      if value = pos.2 then some entries else fixedArray (front ++ (key, value) :: rest)
    else fixedArray (front ++ (key, value) :: pos :: rest)

def erase (entries : List (κ × ν)) : List (κ × ν) :=
  if (find comparator key entries).isNone then entries
  else if entries.length ≤ 1 then []
  else entries.eraseP fun entry => comparator key entry.1 = .eq

end ArraySortedMap

/-- `TreeSortedMap::Create` -/
def TreeSortedMap.create (entries : List (κ × ν)) : Option (LlrbNode κ ν) :=
  Transition.run (fun node entry => node.insert comparator entry.1 entry.2) LlrbNode.empty entries

inductive SortedMap (κ ν : Type) where
  | array (entries : List (κ × ν))
  | tree (root : LlrbNode κ ν)
deriving DecidableEq, Repr

namespace SortedMap

def empty : SortedMap κ ν := .array []

def isEmpty : SortedMap κ ν → Bool
  | .array entries => entries.isEmpty
  | .tree root => root.isEmpty

def size : SortedMap κ ν → Nat
  | .array entries => entries.length
  | .tree root => root.size

/-- A full array becomes a tree, even where the key is in it already. -/
def insert [DecidableEq ν] (value : ν) : SortedMap κ ν → Option (SortedMap κ ν)
  | .array entries =>
    if entries.length ≥ fixedSize then
      (TreeSortedMap.create comparator entries).bind fun root => (root.insert comparator key value).map .tree
    else (ArraySortedMap.insert comparator key value entries).map .array
  | .tree root => (root.insert comparator key value).map .tree

/-- A tree that has lost its last entry is an array again. -/
def erase : SortedMap κ ν → Option (SortedMap κ ν)
  | .array entries => some (.array (ArraySortedMap.erase comparator key entries))
  | .tree root => (root.erase comparator key).map fun result => if result.isEmpty then empty else .tree result

def contains : SortedMap κ ν → Bool
  | .array entries => (ArraySortedMap.find comparator key entries).isSome
  | .tree root => root.contains comparator key

def find : SortedMap κ ν → Option (κ × ν)
  | .array entries => ArraySortedMap.find comparator key entries
  | .tree root => root.find comparator key

def findIndex : SortedMap κ ν → Option Nat
  | .array entries => ArraySortedMap.findIndex comparator key entries
  | .tree root => root.findIndex comparator key 0

def get (map : SortedMap κ ν) : Option ν := (map.find comparator key).map Prod.snd

/-- The entry of `min`, with `end()` as `none`. -/
def min? : SortedMap κ ν → Option (κ × ν)
  | .array entries => entries.head?
  | .tree root => (LlrbNodeIterator.begin root).get

/-- The entry of `max`, with `end()` as `none`. -/
def max? : SortedMap κ ν → Option (κ × ν)
  | .array entries => entries.getLast?
  | .tree root => root.max?

end SortedMap

/-- An iterator of an array is the list of what it has still to visit. -/
inductive SortedMapIterator (κ ν : Type) where
  | array (rest : List (κ × ν))
  | tree (iterator : LlrbNodeIterator κ ν)

namespace SortedMapIterator

def isEnd : SortedMapIterator κ ν → Bool
  | .array rest => rest.isEmpty
  | .tree iterator => iterator.isEnd

def get : SortedMapIterator κ ν → Option (κ × ν)
  | .array rest => rest.head?
  | .tree iterator => iterator.get

/-- `operator++` -/
def advance : SortedMapIterator κ ν → Option (SortedMapIterator κ ν)
  | .array [] => none
  | .array (_ :: rest) => some (.array rest)
  | .tree iterator => iterator.advance.map .tree

end SortedMapIterator

namespace SortedMap

def begin : SortedMap κ ν → SortedMapIterator κ ν
  | .array entries => .array entries
  | .tree root => .tree (LlrbNodeIterator.begin root)

def lowerBound : SortedMap κ ν → SortedMapIterator κ ν
  | .array entries => .array (ArraySortedMap.lowerBound comparator key entries)
  | .tree root => .tree ⟨LlrbNodeIterator.lowerBound comparator key [] root⟩

end SortedMap

end FireChat.Core
