import FireChat.Firestore
import FireChat.Library.Sorted

/-! Queries and sorted document sets of the Firestore core that the app links
against. Keys, data and field values are the core's own and stay parameters. -/

namespace FireChat.Core

inductive DocumentState where
  | localMutations
  | committedMutations
  | synced
deriving DecidableEq, Repr

structure Document (κ δ : Type) where
  key : κ
  data : δ
  version : Timestamp
  state : DocumentState
deriving DecidableEq

namespace Document

variable {κ δ : Type}

def hasLocalMutations (document : Document κ δ) : Bool := document.state = .localMutations

def hasCommittedMutations (document : Document κ δ) : Bool := document.state = .committedMutations

/-- What a snapshot shows of a document. -/
def content (document : Document κ δ) : κ × δ := (document.key, document.data)

end Document

inductive MaybeDocument (κ δ : Type) where
  | document (document : Document κ δ)
  | noDocument (key : κ) (version : Timestamp) (hasCommittedMutations : Bool)

namespace MaybeDocument

variable {κ δ : Type}

def key : MaybeDocument κ δ → κ
  | .document known => known.key
  | .noDocument key _ _ => key

def version : MaybeDocument κ δ → Timestamp
  | .document known => known.version
  | .noDocument _ version _ => version

def hasPendingWrites : MaybeDocument κ δ → Bool
  | .document known => known.hasLocalMutations || known.hasCommittedMutations
  | .noDocument _ _ hasCommittedMutations => hasCommittedMutations

def document? : MaybeDocument κ δ → Option (Document κ δ)
  | .document known => some known
  | .noDocument _ _ _ => none

end MaybeDocument

/-- Each entry stands under its own key, which the loops over these maps assert. -/
abbrev MaybeDocumentMap (κ δ : Type) [Ord κ] := Keyed.Sorted (@MaybeDocument.key κ δ) (compareOn MaybeDocument.key)

instance MaybeDocument.orders_key {κ δ : Type} [LinearOrder κ] : Keyed.Orders (@MaybeDocument.key κ δ) (compareOn MaybeDocument.key) where
  same_key _ _ same := Std.LawfulEqOrd.eq_of_compare same

/-- A field path is what it reads of a document. -/
inductive FieldPath (δ ν : Type) where
  | key
  | field (read : δ → Option ν)

def FieldPath.isKeyFieldPath {δ ν : Type} : FieldPath δ ν → Bool
  | .key => true
  | .field _ => false

inductive Direction where
  | ascending
  | descending
deriving DecidableEq, Repr

def Direction.applyTo : Direction → Ordering → Ordering
  | .ascending, result => result
  | .descending, result => result.swap

structure OrderBy (δ ν : Type) where
  field : FieldPath δ ν
  direction : Direction

structure Filter (κ δ ν : Type) where
  field : FieldPath δ ν
  isInequality : Bool
  accepts : κ × δ → Bool

inductive LimitType where
  | none
  | first
  | last
deriving DecidableEq, Repr

/-- The largest `int32_t`. -/
def Target.kNoLimit : Nat := 2147483647

/-- A bound is what `SortsBeforeDocument` says of it. -/
structure Query (κ δ ν : Type) where
  /-- `MatchesPathAndCollectionGroup` -/
  path : κ → Bool
  filters : List (Filter κ δ ν)
  explicitOrderBys : List (OrderBy δ ν)
  limitType : LimitType
  limit : Nat
  startAt : Option (κ × δ → Bool)
  endAt : Option (κ × δ → Bool)

variable {κ δ ν : Type}

/-- The source asserts that both documents have the field; `Query.matchesOrderBy`
keeps documents without it out of every view. -/
def OrderBy.compare [Ord κ] [Ord ν] (orderBy : OrderBy δ ν) (lhs rhs : Document κ δ) : Ordering :=
  orderBy.direction.applyTo <|
    match orderBy.field with
    | .key => Ord.compare lhs.key rhs.key
    | .field read => Ord.compare (read lhs.data) (read rhs.data)

namespace Query

/-- Neither filtered nor limited nor bounded, and in the order of the keys. -/
def matchesAllDocuments (query : Query κ δ ν) : Bool :=
  query.filters.isEmpty && query.limit = Target.kNoLimit && query.startAt.isNone && query.endAt.isNone &&
    match query.explicitOrderBys with
    | [] => true
    | [orderBy] => orderBy.field.isKeyFieldPath
    | _ => false

def hasLimitToFirst (query : Query κ δ ν) : Bool := query.limitType = .first

def hasLimitToLast (query : Query κ δ ν) : Bool := query.limitType = .last

def inequalityFilterField (query : Query κ δ ν) : Option (FieldPath δ ν) :=
  (query.filters.find? Filter.isInequality).map Filter.field

def lastDirection (query : Query κ δ ν) : Direction :=
  (query.explicitOrderBys.getLast?.map OrderBy.direction).getD .ascending

def orderBys (query : Query κ δ ν) : List (OrderBy δ ν) :=
  match query.inequalityFilterField, query.explicitOrderBys with
  | some .key, [] => [⟨.key, .ascending⟩]
  | some field, [] => [⟨field, .ascending⟩, ⟨.key, .ascending⟩]
  | _, explicit =>
    if explicit.any fun orderBy => orderBy.field.isKeyFieldPath then explicit
    else explicit ++ [⟨.key, query.lastDirection⟩]

def matchesFilters (query : Query κ δ ν) (document : Document κ δ) : Bool :=
  query.filters.all fun filter => filter.accepts document.content

def matchesOrderBy (query : Query κ δ ν) (document : Document κ δ) : Bool :=
  query.explicitOrderBys.all fun orderBy =>
    match orderBy.field with
    | .key => true
    | .field read => (read document.data).isSome

def matchesBounds (query : Query κ δ ν) (document : Document κ δ) : Bool :=
  (query.startAt.all fun bound => bound document.content) && query.endAt.all fun bound => !bound document.content

def «matches» (query : Query κ δ ν) (document : Document κ δ) : Bool :=
  query.path document.key && query.matchesOrderBy document && query.matchesFilters document && query.matchesBounds document

/-- Whether a document matches depends on its key and data alone. -/
theorem matches_congr (query : Query κ δ ν) {first second : Document κ δ} (same : first.content = second.content) :
    query.matches first = query.matches second := by
  obtain ⟨key, data⟩ := Prod.mk.inj same
  simp only [«matches», matchesOrderBy, matchesFilters, matchesBounds, key, data, same]

end Query

/-- The first of the orders that tells two documents apart. -/
def compareBy [Ord κ] [Ord ν] : List (OrderBy δ ν) → Document κ δ → Document κ δ → Ordering
  | [], _, _ => .eq
  | orderBy :: rest, lhs, rhs => (orderBy.compare lhs rhs).then (compareBy rest lhs rhs)

def Query.comparator [Ord κ] [Ord ν] (query : Query κ δ ν) : Document κ δ → Document κ δ → Ordering :=
  compareBy query.orderBys

abbrev DocumentSet [Ord κ] [Ord ν] (query : Query κ δ ν) := Keyed.Sorted Document.key query.comparator

section Comparator

/-- A query orders by key at the latest where all other orders agree. -/
theorem Query.orderBys_key (query : Query κ δ ν) : ∃ orderBy ∈ query.orderBys, orderBy.field.isKeyFieldPath := by
  unfold Query.orderBys
  split
  next => exact ⟨_, List.mem_singleton_self _, rfl⟩
  next => exact ⟨_, List.mem_cons_of_mem _ (List.mem_singleton_self _), rfl⟩
  next =>
    split
    next keyed => simpa using keyed
    next => exact ⟨_, List.mem_concat_self, rfl⟩

instance Direction.transCmp_applyTo (direction : Direction) {α : Type} {cmp : α → α → Ordering} [Std.TransCmp cmp] :
    Std.TransCmp fun lhs rhs => direction.applyTo (cmp lhs rhs) := by
  cases direction with
  | ascending => exact inferInstanceAs (Std.TransCmp cmp)
  | descending =>
    have swapped : (fun lhs rhs => Direction.descending.applyTo (cmp lhs rhs)) = fun lhs rhs => cmp rhs lhs := by
      funext lhs rhs
      exact (Std.OrientedCmp.eq_swap).symm
    rw [swapped]
    exact Std.TransCmp.opposite

variable [LinearOrder κ] [Ord ν]

theorem compareBy_eq {orderBys : List (OrderBy δ ν)} {lhs rhs : Document κ δ} (same : compareBy orderBys lhs rhs = .eq)
    {orderBy : OrderBy δ ν} (member : orderBy ∈ orderBys) : orderBy.compare lhs rhs = .eq := by
  induction orderBys with
  | nil => cases member
  | cons head rest ih =>
    obtain ⟨first, others⟩ := Ordering.then_eq_eq.mp same
    rcases List.mem_cons.mp member with rfl | later
    · exact first
    · exact ih others later

/-- The order of two documents depends on their keys and data alone. -/
theorem Query.comparator_congr (query : Query κ δ ν) {lhs rhs other another : Document κ δ}
    (left : lhs.content = other.content) (right : rhs.content = another.content) :
    query.comparator lhs rhs = query.comparator other another := by
  obtain ⟨leftKey, leftData⟩ := Prod.mk.inj left
  obtain ⟨rightKey, rightData⟩ := Prod.mk.inj right
  unfold Query.comparator
  induction query.orderBys with
  | nil => rfl
  | cons orderBy rest ih => simp only [compareBy, OrderBy.compare, leftKey, leftData, rightKey, rightData, ih]

variable [Std.TransOrd ν]

instance OrderBy.transCmp_compare (orderBy : OrderBy δ ν) :
    Std.TransCmp (orderBy.compare : Document κ δ → Document κ δ → Ordering) := by
  obtain ⟨field, direction⟩ := orderBy
  cases field with
  | key => exact inferInstanceAs (Std.TransCmp fun lhs rhs : Document κ δ => direction.applyTo (compareOn Document.key lhs rhs))
  | field read =>
    exact inferInstanceAs
      (Std.TransCmp fun lhs rhs : Document κ δ => direction.applyTo (compareOn (fun document => read document.data) lhs rhs))

instance transCmp_compareBy (orderBys : List (OrderBy δ ν)) :
    Std.TransCmp (compareBy orderBys : Document κ δ → Document κ δ → Ordering) := by
  induction orderBys with
  | nil => exact { eq_swap := rfl, isLE_trans := fun _ _ => rfl }
  | cons orderBy rest ih => exact inferInstanceAs (Std.TransCmp (compareLex orderBy.compare (compareBy rest)))

/-- `Comparator` sorts by key last, so only versions of one document compare equal. -/
instance Query.orders_comparator (query : Query κ δ ν) : Keyed.Orders (Document.key : Document κ δ → κ) query.comparator where
  toTransCmp := transCmp_compareBy query.orderBys
  same_key lhs rhs same := by
    obtain ⟨⟨field, direction⟩, member, keyed⟩ := query.orderBys_key
    cases field with
    | field read => cases keyed
    | key =>
      have equal := compareBy_eq same member
      cases direction with
      | ascending => exact Std.LawfulEqOrd.eq_of_compare equal
      | descending => exact Std.LawfulEqOrd.eq_of_compare (Ordering.swap_eq_eq.mp equal)

end Comparator

end FireChat.Core
