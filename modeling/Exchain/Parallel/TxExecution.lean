import Exchain.Lib.Run
import Exchain.Store.Layers

/-! The execution of one transaction over a parent store that other goroutines keep writing to. It
is any program whose next store access may depend on all it has read; the parent may differ at every
access. -/

namespace Exchain.Parallel

open Store

/-- A transaction as the stores see it. Has is a get that only looks at whether there is a value. -/
inductive TxProg (K Out : Type) [LinearOrder K] where
  | done (out : Out)
  | get (key : K) (next : Content → TxProg K Out)
  | set (key : K) (value : Bytes) (next : TxProg K Out)
  | delete (key : K) (next : TxProg K Out)
  | iterate (domain : Domain K) (ascending : Bool) (count : Nat)
      (next : List (K × Bytes) → TxProg K Out)
  | cacheWrap (next : TxProg K Out)
  | write (next : TxProg K Out)
  | discard (next : TxProg K Out)

/-- The parent store at one moment. A parent that is a cache may answer Get from recorded values,
which its iterators do not look at. -/
structure View (K : Type) [LinearOrder K] where
  get : K → Content
  listed : K → Content
  iterator : Domain K → Bool → List (K × Bytes)
  lists : ∀ domain ascending, Lists listed domain ascending (iterator domain ascending)

variable {K Out : Type} [LinearOrder K]

def View.ofBase (base : Base K) : View K where
  get := base.lookup
  listed := base.lookup
  iterator := base.iterator
  lists := base.iterator_lists

/-- The transaction's own store, and the stores opened over it. -/
structure TxStore (K : Type) [LinearOrder K] where
  inner : Layers K
  tx : CacheKV K

namespace TxStore

variable (store : TxStore K)

def layers : Layers K := store.inner ++ [store.tx]

/-- The parent has to be asked for the key. -/
def asks (key : K) : Bool := store.layers.asks key

def get (parent : Content) (key : K) : Content × TxStore K :=
  let asked := store.tx.get parent key
  let answer := store.inner.get asked.1 key
  (answer.1, ⟨answer.2, if store.inner.asks key then asked.2 else store.tx⟩)

def setDirty (key : K) (value : CValue) : TxStore K := match store.inner with
  | [] => { store with tx := store.tx.setDirty key value }
  | top :: below => { store with inner := top.setDirty key value :: below }

def cacheWrap : TxStore K := { store with inner := CacheKV.new :: store.inner }

/-- Write of the innermost opened store; it stays open, emptied. -/
def write : TxStore K := match store.inner with
  | [] => store
  | [top] => ⟨[top.clearCache], top.writeToCacheKv store.tx⟩
  | top :: next :: below => { store with inner := top.clearCache :: top.writeToCacheKv next :: below }

def discard : TxStore K := { store with inner := store.inner.tail }

def dirtyItems (domain : Domain K) : TxStore K :=
  ⟨store.inner.map (·.dirtyItems domain), store.tx.dirtyItems domain⟩

end TxStore

/-- An iterator opened by the transaction: its layers and the parent at that moment, and how many
pairs were read. -/
structure Scan (K : Type) [LinearOrder K] where
  layers : Layers K
  domain : Domain K
  ascending : Bool
  count : Nat
  parent : View K

/-- The pairs the iterator produces when it is opened over a given parent. -/
def Scan.produced (scan : Scan K) (parent : View K) : List (K × Bytes) :=
  (scan.layers.iterator (parent.iterator scan.domain scan.ascending) scan.domain
    scan.ascending).take scan.count

/-- What came from the parent into the transaction. -/
inductive Observation (K : Type) [LinearOrder K] where
  | read (key : K) (content : Content)
  | scan (scan : Scan K)

structure Execution (K Out : Type) [LinearOrder K] where
  prog : TxProg K Out
  store : TxStore K
  trace : List (Observation K)

namespace Execution

def start (prog : TxProg K Out) : Execution K Out := ⟨prog, ⟨[], CacheKV.new⟩, []⟩

/-- One store access, with the parent as it is at that moment. -/
def step (e : Execution K Out) (view : View K) : Execution K Out := match e.prog with
  | .done _ => e
  | .get key next =>
    { prog := next (e.store.get (view.get key) key).1
      store := (e.store.get (view.get key) key).2
      trace := if e.store.asks key then .read key (view.get key) :: e.trace else e.trace }
  | .set key value next => { e with prog := next, store := e.store.setDirty key (.value value) }
  | .delete key next => { e with prog := next, store := e.store.setDirty key .deleted }
  | .iterate domain ascending count next =>
    let scan : Scan K := ⟨e.store.layers, domain, ascending, count, view⟩
    { prog := next (scan.produced view)
      store := e.store.dirtyItems domain
      trace := .scan scan :: e.trace }
  | .cacheWrap next => { e with prog := next, store := e.store.cacheWrap }
  | .write next => { e with prog := next, store := e.store.write }
  | .discard next => { e with prog := next, store := e.store.discard }

def run (prog : TxProg K Out) (views : List (View K)) : Execution K Out :=
  Run.exec step (start prog) views

end Execution

end Exchain.Parallel
