import Mathlib.Data.Rat.Defs

/-! What the screens use of UIKit and of SDWebImage. A view is what it shows. -/

namespace FireChat

inductive UIColor where
  | systemPurple
  | black
  | white
  | colorLiteral (red green blue alpha : Rat)
deriving DecidableEq, Repr

structure URL where
  absoluteString : String
deriving DecidableEq, Repr

structure UIImageView where
  image : Option URL
  isHidden : Bool
deriving DecidableEq, Repr

/-- The old image goes at once, and the one at the URL is set, if there is a URL. -/
def UIImageView.sd_setImage (view : UIImageView) (url : Option URL) : UIImageView :=
  let view := { view with image := none }
  match url with
  | some url => { view with image := some url }
  | none => view

@[simp] theorem UIImageView.sd_setImage_image (view : UIImageView) (url : Option URL) :
    (view.sd_setImage url).image = url := by
  cases url <;> rfl

@[simp] theorem UIImageView.sd_setImage_isHidden (view : UIImageView) (url : Option URL) :
    (view.sd_setImage url).isHidden = view.isHidden := by
  cases url <;> rfl

/-- An index that a screen uses, with the length of the array that it indexes. -/
structure Access where
  index : Int
  count : Nat
deriving DecidableEq, Repr

def Access.InRange (access : Access) : Prop := 0 ≤ access.index ∧ access.index < access.count

instance (access : Access) : Decidable access.InRange :=
  inferInstanceAs (Decidable (_ ∧ _))

theorem Access.inRange_row {row count : Nat} (below : row < count) : (Access.mk row count).InRange :=
  ⟨Int.natCast_nonneg row, Int.ofNat_lt.mpr below⟩

/-- A table or collection view: the row count it has read last, and the indices used so far. -/
structure Table where
  reported : Nat
  accesses : List Access
deriving DecidableEq, Repr

namespace Table

def empty : Table := ⟨0, []⟩

def reloadData (table : Table) (count : Nat) : Table := { table with reported := count }

/-- The view asks only for rows below its count; `count` is the length of the array that is indexed. -/
def ask (table : Table) (row count : Nat) : Option Table :=
  if row < table.reported then some { table with accesses := table.accesses ++ [⟨row, count⟩] } else none

def scrollToItem (table : Table) (item : Int) : Table :=
  { table with accesses := table.accesses ++ [⟨item, table.reported⟩] }

/-- The view has read the length of its array, and no index has been out of range. -/
structure Steady (table : Table) (count : Nat) : Prop where
  reported : table.reported = count
  inRange : ∀ access ∈ table.accesses, access.InRange

variable {table next : Table} {row count : Nat}

private theorem inRange_append {accesses : List Access} {access : Access} (before : ∀ other ∈ accesses, other.InRange)
    (inside : access.InRange) : ∀ other ∈ accesses ++ [access], other.InRange := by
  intro other member
  rcases List.mem_append.mp member with old | new
  · exact before other old
  · rw [List.mem_singleton.mp new]
    exact inside

theorem steady_empty : empty.Steady 0 := by
  refine ⟨rfl, ?_⟩
  intro access member
  cases member

theorem Steady.reloadData (steady : table.Steady count) (length : Nat) : (table.reloadData length).Steady length :=
  ⟨rfl, steady.inRange⟩

theorem Steady.ask (steady : table.Steady count) (asked : table.ask row count = some next) : next.Steady count := by
  unfold Table.ask at asked
  split at asked
  next below =>
    cases asked
    exact ⟨steady.reported, inRange_append steady.inRange (Access.inRange_row (steady.reported ▸ below))⟩
  next => cases asked

theorem Steady.scrollToLast (steady : table.Steady count) (nonempty : 0 < count) :
    (table.scrollToItem (count - 1)).Steady count := by
  refine ⟨steady.reported, inRange_append steady.inRange ?_⟩
  rw [steady.reported]
  refine ⟨?_, ?_⟩
  · show (0 : Int) ≤ count - 1
    omega
  · show (count : Int) - 1 < count
    omega

end Table

end FireChat
