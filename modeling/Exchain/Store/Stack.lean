import Exchain.Lib.Overlay
import Exchain.Store.Layers

/-! A stack of cache stores over a store that is none, with every operation on any layer. Layers are
counted from the innermost one; last comes the store at the bottom. -/

namespace Exchain.Store

variable {K : Type} [LinearOrder K]

/-- Set or Delete of the store at the bottom. -/
def Base.setValue (base : Base K) (key : K) : CValue → Base K
  | .value bytes => base.insert key bytes
  | .deleted => base.erase key

/-- Write over a parent that is no cache store, in the order of the keys. -/
def CacheKV.writeToBase (store : CacheKV K) (base : Base K) : Base K :=
  (store.dirty.entries.insertionSort (fun a b => a.1 ≤ b.1)).foldl
    (fun base item => base.setValue item.1 item.2) base

structure Stack (K : Type) [LinearOrder K] where
  base : Base K
  layers : Layers K

namespace Stack

variable (stack : Stack K)

/-- The stores above a layer stay as they are. -/
def under (i : Nat) (base : Base K) (layers : Layers K) : Stack K :=
  ⟨base, stack.layers.take i ++ layers⟩

def get (i : Nat) (key : K) : Content × Stack K :=
  let answer := Layers.get (stack.base.lookup key) key (stack.layers.drop i)
  (answer.1, stack.under i stack.base answer.2)

def has (i : Nat) (key : K) : Bool × Stack K :=
  let answer := stack.get i key
  (answer.1.isSome, answer.2)

def setValue (i : Nat) (key : K) (value : CValue) : Stack K :=
  match stack.layers.drop i with
  | [] => stack.under i (stack.base.setValue key value) []
  | store :: below => stack.under i stack.base (store.setDirty key value :: below)

/-- All pairs of an iterator that is opened on a layer. -/
def iterator (i : Nat) (start stop : Option K) (ascending : Bool) : List (K × Bytes) × Stack K :=
  let domain := Domain.between start stop
  (Layers.iterator (stack.base.iterator domain ascending) domain ascending (stack.layers.drop i),
    stack.under i stack.base ((stack.layers.drop i).map (·.dirtyItems domain)))

def write (i : Nat) : Stack K := match stack.layers.drop i with
  | [] => stack
  | [store] => stack.under i (store.writeToBase stack.base) [store.clearCache]
  | store :: parent :: below =>
    stack.under i stack.base (store.clearCache :: store.writeToCacheKv parent :: below)

/-- CacheWrap of a layer; the stores that were above it are no longer used. -/
def cacheWrap (i : Nat) : Stack K :=
  { stack with layers := CacheKV.new :: stack.layers.drop i }

/-- A layer is dropped, with what is above it. -/
def discard (i : Nat) : Stack K :=
  { stack with layers := stack.layers.drop (i + 1) }

inductive Op (K : Type) where
  | get (i : Nat) (key : K)
  | has (i : Nat) (key : K)
  | set (i : Nat) (key : K) (value : Bytes)
  | delete (i : Nat) (key : K)
  | iterate (i : Nat) (start stop : Option K) (ascending : Bool)
  | write (i : Nat)
  | cacheWrap (i : Nat)
  | discard (i : Nat)
deriving Repr, DecidableEq

inductive Answer (K : Type) where
  | none
  | content (value : Content)
  | found (exists_ : Bool)
  | pairs (pairs : List (K × Bytes))
deriving Repr, DecidableEq

def step : Op K → Stack K × Answer K
  | .get i key => ((stack.get i key).2, .content (stack.get i key).1)
  | .has i key => ((stack.has i key).2, .found (stack.has i key).1)
  | .set i key value => (stack.setValue i key (.value value), .none)
  | .delete i key => (stack.setValue i key .deleted, .none)
  | .iterate i start stop ascending =>
    ((stack.iterator i start stop ascending).2, .pairs (stack.iterator i start stop ascending).1)
  | .write i => (stack.write i, .none)
  | .cacheWrap i => (stack.cacheWrap i, .none)
  | .discard i => (stack.discard i, .none)

end Stack

/-- What a stack of cache stores is for: maps of changes, each over the next, the last over a map.
-/
structure Overlaid (K : Type) where
  base : K → Content
  layers : List (Overlay.Delta K Bytes)

namespace Overlaid

variable (maps : Overlaid K)

def view (i : Nat) : K → Content :=
  (maps.layers.drop i).foldr Overlay.on maps.base

def setValue (i : Nat) (key : K) (value : Content) : Overlaid K :=
  match maps.layers.drop i with
  | [] => ⟨Function.update maps.base key value, maps.layers.take i⟩
  | change :: below =>
    ⟨maps.base, maps.layers.take i ++ Function.update change key (some value) :: below⟩

/-- The changes of a layer become part of what is below it. -/
def write (i : Nat) : Overlaid K := match maps.layers.drop i with
  | [] => maps
  | [change] => ⟨Overlay.on change maps.base, maps.layers.take i ++ [Overlay.silent]⟩
  | change :: parent :: below =>
    ⟨maps.base, maps.layers.take i ++ Overlay.silent :: Overlay.atop change parent :: below⟩

def step : Stack.Op K → Overlaid K
  | .get _ _ => maps
  | .has _ _ => maps
  | .set i key value => maps.setValue i key (some value)
  | .delete i key => maps.setValue i key none
  | .iterate _ _ _ _ => maps
  | .write i => maps.write i
  | .cacheWrap i => { maps with layers := Overlay.silent :: maps.layers.drop i }
  | .discard i => { maps with layers := maps.layers.drop (i + 1) }

/-- The answers that the maps give. -/
def Answers : Stack.Op K → Stack.Answer K → Prop
  | .get i key, .content value => value = maps.view i key
  | .has i key, .found found => found = (maps.view i key).isSome
  | .iterate i start stop ascending, .pairs pairs =>
    Lists (maps.view i) (Domain.between start stop) ascending pairs
  | .get _ _, _ => False
  | .has _ _, _ => False
  | .iterate _ _ _ _, _ => False
  | _, answer => answer = .none

end Overlaid

end Exchain.Store
