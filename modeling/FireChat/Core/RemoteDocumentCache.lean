import FireChat.Core.Query
import FireChat.Core.SortedMap
import Mathlib.Order.BoundedOrder.Basic

/-! The cache of the documents that the server has sent, and the scan of it for the
documents of a collection. -/

namespace FireChat.Core

/-- The segments are strings, of which only the order matters: `⊥` is the empty one. -/
abbrev ResourcePath (σ : Type) := List σ

variable {σ δ ν : Type} [LinearOrder σ]

namespace ResourcePath

def compareTo : ResourcePath σ → ResourcePath σ → Ordering := List.compareLex compare

def isPrefixOf (path rhs : ResourcePath σ) : Bool := path.length ≤ rhs.length && rhs.take path.length = path

def isImmediateParentOf (path potentialChild : ResourcePath σ) : Bool :=
  path.length + 1 = potentialChild.length && potentialChild.take path.length = path

/-- `DocumentKey::IsDocumentKey` -/
def isDocumentKey (path : ResourcePath σ) : Bool := path.length % 2 = 0

end ResourcePath

/-- `MatchesPathAndCollectionGroup` of a query for the documents of a collection. -/
def Query.inCollection (path : ResourcePath σ) (query : Query (ResourcePath σ) δ ν) : Query (ResourcePath σ) δ ν :=
  { query with path := path.isImmediateParentOf }

deriving instance DecidableEq for MaybeDocument

abbrev DocumentMap (σ δ : Type) := SortedMap (ResourcePath σ) (Document (ResourcePath σ) δ)

/-- A document with the time at which it was read. -/
abbrev CacheEntry (σ δ : Type) := MaybeDocument (ResourcePath σ) δ × Timestamp

/-- The map `docs_`. -/
abbrev MemoryRemoteDocumentCache (σ δ : Type) := SortedMap (ResourcePath σ) (CacheEntry σ δ)

namespace MemoryRemoteDocumentCache

variable [DecidableEq δ]

def add (cache : MemoryRemoteDocumentCache σ δ) (document : MaybeDocument (ResourcePath σ) δ) (readTime : Timestamp) :
    Option (MemoryRemoteDocumentCache σ δ) :=
  SortedMap.insert ResourcePath.compareTo document.key (document, readTime) cache

def remove (cache : MemoryRemoteDocumentCache σ δ) (key : ResourcePath σ) : Option (MemoryRemoteDocumentCache σ δ) :=
  SortedMap.erase ResourcePath.compareTo key cache

def get (cache : MemoryRemoteDocumentCache σ δ) (key : ResourcePath σ) : Option (MaybeDocument (ResourcePath σ) δ) :=
  (SortedMap.get ResourcePath.compareTo key cache).map Prod.fst

variable (query : Query (ResourcePath σ) δ ν) (sinceReadTime : Timestamp)

/-- What the scan does with an entry below the path. -/
def collect (results : DocumentMap σ δ) (entry : ResourcePath σ × CacheEntry σ δ) :
    Option (DocumentMap σ δ) :=
  match entry.2.1 with
  | .noDocument _ _ _ => some results
  | .document doc =>
    if entry.2.2 ≤ sinceReadTime then some results
    else if query.matches doc then SortedMap.insert ResourcePath.compareTo entry.1 doc results
    else some results

/-- The loop of `GetMatching`, which breaks at the first key that is not below the path.
The fuel bounds its turns. -/
def scan (path : ResourcePath σ) :
    Nat → SortedMapIterator (ResourcePath σ) (CacheEntry σ δ) → DocumentMap σ δ → Option (DocumentMap σ δ)
  | 0, _, _ => none
  | fuel + 1, it, results =>
    if it.isEnd then some results
    else it.get.bind fun entry =>
      if path.isPrefixOf entry.1 then
        (collect query sinceReadTime results entry).bind fun results =>
          it.advance.bind fun next => scan path fuel next results
      else some results

/-- The first key that can be below the path is the path with an empty segment. That it
is a document's key is asserted. -/
def getMatching [OrderBot σ] (cache : MemoryRemoteDocumentCache σ δ) (path : ResourcePath σ) : Option (DocumentMap σ δ) :=
  let first := path ++ [⊥]
  if first.isDocumentKey then
    scan (query.inCollection path) sinceReadTime path (cache.size + 1) (cache.lowerBound ResourcePath.compareTo first) SortedMap.empty
  else none

end MemoryRemoteDocumentCache

end FireChat.Core
