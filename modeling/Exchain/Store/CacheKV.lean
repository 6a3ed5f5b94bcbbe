import Exchain.Lib.AssocMap
import Exchain.Lib.SortedPairs

/-! The cache store that wraps a parent key-value store. The stores of one multistore layer are kept
as one: a key carries the name of its store in front, and the domain of an iterator lies inside one
store. -/

namespace Exchain.Store

abbrev Bytes := List UInt8

/-- What a store holds under a key: nil, or a possibly empty byte string. -/
abbrev Content := Option Bytes

/-- A cached write. Set refuses a nil value, so a write is a value or a delete. -/
inductive CValue where
  | value (bytes : Bytes)
  | deleted
deriving Repr, DecidableEq

def CValue.content : CValue → Content
  | .value bytes => some bytes
  | .deleted => none

structure CacheKV (K : Type) [LinearOrder K] where
  dirty : AssocMap K CValue
  readList : AssocMap K Content
  unsortedCache : List K
  sortedCache : List (K × Content)
  disableCacheReadList : Bool

/-- The keys an iterator ranges over, an interval of the key order. -/
structure Domain (K : Type) [LinearOrder K] where
  mem : K → Bool
  convex : ∀ {a b c : K}, a ≤ b → b ≤ c → mem a = true → mem c = true → mem b = true

variable {K : Type} [LinearOrder K]

/-- The keys that IsKeyInDomain accepts between two bounds; nil bounds nothing. -/
def Domain.between (start stop : Option K) : Domain K where
  mem key := start.all (fun low => decide (low ≤ key)) && stop.all (fun high => decide (key < high))
  convex := by
    intro a b c low high insideA insideC
    cases start <;> cases stop <;> simp only [Option.all_none, Option.all_some, Bool.and_true,
      Bool.true_and, Bool.and_eq_true, decide_eq_true_eq] at *
    · exact lt_of_le_of_lt high insideC
    · exact le_trans insideA low
    · exact ⟨le_trans insideA.1 low, lt_of_le_of_lt high insideC.2⟩

namespace CacheKV

def new : CacheKV K := ⟨∅, ∅, [], [], false⟩

variable (store : CacheKV K)

/-- The write branch of setCacheValue. -/
def setDirty (key : K) (value : CValue) : CacheKV K :=
  { store with
    dirty := store.dirty.insert key value
    unsortedCache := store.unsortedCache.insert key }

/-- The read branch of setCacheValue. -/
def setRead (key : K) (value : Content) : CacheKV K :=
  { store with readList := store.readList.insert key value }

def get (parent : Content) (key : K) : Content × CacheKV K :=
  match store.dirty.lookup key with
  | some cacheValue => (cacheValue.content, store)
  | none =>
    match store.readList.lookup key with
    | some value => (value, store)
    | none =>
      (parent, if store.disableCacheReadList then store
        else store.setRead key parent)

def set (key : K) (value : Bytes) : CacheKV K :=
  store.setDirty key (.value value)

def delete (key : K) : CacheKV K := store.setDirty key .deleted

def clearCache (_ : CacheKV K) : CacheKV K := new

/-- Write over a parent that is itself a cache store. -/
def writeToCacheKv (parent : CacheKV K) : CacheKV K :=
  store.dirty.entries.foldl (fun parent item => parent.setDirty item.1 item.2) parent

/-- The pass of dirtyItems over the sorted list for one unsorted item: it goes before the first
larger item and replaces an equal one. The pass for later items continues from there. -/
def spliceItem (u : K × Content) (continued : List (K × Content) → List (K × Content)) :
    List (K × Content) → List (K × Content)
  | [] => u :: continued []
  | e :: es =>
    if u.1 < e.1 then u :: continued (e :: es)
    else if u.1 = e.1 then u :: continued es
    else e :: spliceItem u continued es

def splice : List (K × Content) → List (K × Content) → List (K × Content)
  | [], sorted => sorted
  | u :: us, sorted => spliceItem u (splice us) sorted

def dirtyItems (domain : Domain K) : CacheKV K :=
  let unsorted := (store.unsortedCache.filter domain.mem).map
    (fun key => (key, (store.dirty.lookup key).bind CValue.content))
  { store with
    unsortedCache := store.unsortedCache.filter (fun key => !domain.mem key)
    sortedCache := splice (unsorted.insertionSort (fun a b => a.1 ≤ b.1)) store.sortedCache }

end CacheKV

/-- newMemIterator: the run of items inside the domain, last one first when
the iterator descends. -/
def memIterator (domain : Domain K) (items : List (K × Content)) (ascending : Bool) :
    List (K × Content) :=
  let itemsInDomain := (items.dropWhile (fun item => !domain.mem item.1)).takeWhile
    (fun item => domain.mem item.1)
  if ascending then itemsInDomain else itemsInDomain.reverse

def precedes (ascending : Bool) (a b : K) : Prop := if ascending then a < b else b < a

instance (ascending : Bool) : DecidableRel (precedes (K := K) ascending) := fun a b =>
  inferInstanceAs (Decidable (if ascending then a < b else b < a))

/-- What is left of the parent's iterator and of the cache's. -/
structure CacheMergeIterator (K : Type) where
  parent : List (K × Bytes)
  cache : List (K × Content)
deriving Repr, DecidableEq

namespace CacheMergeIterator

def skipCacheDeletes : List (K × Content) → List (K × Content)
  | (_, none) :: rest => skipCacheDeletes rest
  | items => items

/-- A delete in front of the parent is dropped alone here; skipCacheDeletes drops those behind it in
the same turn of the loop. -/
def skipUntilExistsOrInvalid (ascending : Bool) :
    List (K × Bytes) → List (K × Content) → CacheMergeIterator K
  | [], cache => ⟨[], skipCacheDeletes cache⟩
  | parent, [] => ⟨parent, []⟩
  | p :: ps, (key, value) :: rest =>
    if precedes ascending p.1 key then ⟨p :: ps, (key, value) :: rest⟩
    else
      match value with
      | some bytes => ⟨p :: ps, (key, some bytes) :: rest⟩
      | none =>
        if p.1 = key then skipUntilExistsOrInvalid ascending ps rest
        else skipUntilExistsOrInvalid ascending (p :: ps) rest

def skip (ascending : Bool) (it : CacheMergeIterator K) : CacheMergeIterator K :=
  skipUntilExistsOrInvalid ascending it.parent it.cache

/-- Key and Value of an iterator that has skipped its deletes; none when it is
not valid. -/
def current (ascending : Bool) : CacheMergeIterator K → Option (K × Bytes)
  | ⟨[], []⟩ => none
  | ⟨[], c :: _⟩ => c.2.map (fun value => (c.1, value))
  | ⟨p :: _, []⟩ => some p
  | ⟨p :: _, c :: _⟩ =>
    if precedes ascending p.1 c.1 then some p else c.2.map (fun value => (c.1, value))

/-- Next of an iterator that has skipped its deletes. -/
def next (ascending : Bool) : CacheMergeIterator K → CacheMergeIterator K
  | ⟨[], cache⟩ => ⟨[], cache.tail⟩
  | ⟨p :: ps, []⟩ => ⟨(p :: ps).tail, []⟩
  | ⟨p :: ps, c :: cs⟩ =>
    if precedes ascending p.1 c.1 then ⟨ps, c :: cs⟩
    else if p.1 = c.1 then ⟨ps, cs⟩
    else ⟨p :: ps, cs⟩

/-- The pairs seen by a caller that reads at most n of them. -/
def read (ascending : Bool) : Nat → CacheMergeIterator K → List (K × Bytes)
  | 0, _ => []
  | n + 1, it =>
    match current ascending (skip ascending it) with
    | none => []
    | some pair => pair :: read ascending n (next ascending (skip ascending it))

/-- All pairs of the iterator. -/
def items (ascending : Bool) (it : CacheMergeIterator K) : List (K × Bytes) :=
  read ascending (it.parent.length + it.cache.length) it

end CacheMergeIterator

/-- The store at the bottom of all caches. -/
abbrev Base (K : Type) [LinearOrder K] := AssocMap K Bytes

def Base.iterator (base : Base K) (domain : Domain K) (ascending : Bool) : List (K × Bytes) :=
  let pairs := (base.entries.map (fun item => (item.1, item.2))).filter
    (fun pair => domain.mem pair.1)
  let sorted := pairs.insertionSort (fun a b => a.1 ≤ b.1)
  if ascending then sorted else sorted.reverse

/-- Cache stores stacked over each other, the innermost first. -/
abbrev Layers (K : Type) [LinearOrder K] := List (CacheKV K)

namespace Layers

/-- No layer can answer for the key, neither from a write nor from a read. -/
def asks (layers : Layers K) (key : K) : Bool := layers.all (fun store =>
    (store.dirty.lookup key).isNone && (store.readList.lookup key).isNone)

/-- Get at the innermost store: a layer that cannot answer asks the one below and records the
answer. -/
def get (parent : Content) (key : K) : Layers K → Content × Layers K
  | [] => (parent, [])
  | store :: below =>
    if asks [store] key then
      let (value, below) := get parent key below
      let (value, store) := store.get value key
      (value, store :: below)
    else ((store.get none key).1, store :: below)

/-- Iterator and ReverseIterator of the innermost store, all its pairs; every layer sorts its dirty
items. -/
def iterator (parent : List (K × Bytes)) (domain : Domain K) (ascending : Bool) :
    Layers K → List (K × Bytes)
  | [] => parent
  | store :: below =>
    CacheMergeIterator.items ascending
      ⟨iterator parent domain ascending below,
        memIterator domain (store.dirtyItems domain).sortedCache ascending⟩

end Layers

end Exchain.Store
