import Exchain.Lib.Interleaving
import Exchain.Mempool.GasTxQueue

/-! The gas-price queue under concurrent calls. Every access to the sorted list, the map of keys and
the table of address records is one step; a record is found first and locked later, and what a call
does under its lock interleaves with everything that does not need the lock. Cutting an element's
own links after it has left the list belongs to the step that takes it out. -/
namespace Exchain.Mempool

/-- A list element: the number of the Insert call that made it, and its transaction. -/
structure Element where
  id : Nat
  tx : MempoolTx
  deriving DecidableEq, Repr

namespace Element

def address (e : Element) : Address := e.tx.fromAddr

def nonce (e : Element) : Nat := e.tx.nonce

/-- The list with the element where InsertElement puts its transaction. -/
def place (e : Element) (txs : List Element) : Option (List Element) :=
  (insertElement e.tx (txs.map Element.tx)).map fun placed =>
    txs.insertIdx (placed.idxOf e.tx) e

end Element

/-- An addrMap object; it is known by the number of the call that allocated it. -/
structure ItemMap where
  items : AssocMap Nat Element
  maxNonce : Nat

/-- What the calls share. `removed` holds the elements marked as removed, `locks` the call that
holds a record's lock. -/
structure SharedQueue where
  sortedTxs : List Element
  removed : List Element
  sortedTxsMap : AssocMap (List UInt8) Element
  heap : AssocMap Nat ItemMap
  addrTxs : AssocMap Address Nat
  locks : AssocMap Nat Nat

def newSharedQueue : SharedQueue where
  sortedTxs := []
  removed := []
  sortedTxsMap := ∅
  heap := ∅
  addrTxs := ∅
  locks := ∅

namespace SharedQueue

variable (s : SharedQueue)

def record (r : Nat) : ItemMap := (s.heap.lookup r).getD ⟨∅, 0⟩

def item (r nonce : Nat) : Option Element := (s.record r).items.lookup nonce

theorem item_congr {s s' : SharedQueue} {r : Nat} (same : s'.record r = s.record r) (nonce : Nat) :
    s'.item r nonce = s.item r nonce := by
  rw [item, item, same]

def lock (r call : Nat) : SharedQueue := { s with locks := s.locks.insert r call }

def unlock (r : Nat) : SharedQueue := { s with locks := s.locks.erase r }

def setRecord (r : Nat) (am : ItemMap) : SharedQueue :=
  { s with heap := s.heap.insert r am }

theorem record_setRecord (r r' : Nat) (am : ItemMap) :
    (s.setRecord r am).record r' = if r' = r then am else s.record r' := by
  unfold record setRecord
  rw [AList.lookup_insert_if]
  split <;> rfl

theorem item_setRecord (r r' : Nat) (am : ItemMap) (nonce : Nat) :
    (s.setRecord r am).item r' nonce = if r' = r then am.items.lookup nonce else s.item r' nonce := by
  unfold item
  rw [record_setRecord]
  split <;> rfl

/-- The list's Remove passes over a removed element and panics on one that is neither
in the list nor removed. -/
def takeOut (e : Element) : Option SharedQueue := if e ∈ s.removed then some s
  else if e ∈ s.sortedTxs then
    some { s with sortedTxs := s.sortedTxs.erase e, removed := e :: s.removed }
  else none

def dropKey (keys : KeyRegime) (s : SharedQueue) (e : Element) : SharedQueue :=
  { s with sortedTxsMap := s.sortedTxsMap.erase (keys.txKey e.tx.tx) }

/-- The loop of calculateMaxNonce over the keys of a record. -/
def maxNonceOf (items : AssocMap Nat Element) : Nat :=
  items.keys.foldl (fun acc k => if acc < k then k else acc) 0

/-- DeleteItem with the lock of the record. -/
def deleteItem (r : Nat) (e : Element) : SharedQueue :=
  let items := (s.record r).items.erase e.nonce
  let s' := s.setRecord r ⟨items, maxNonceOf items⟩
  if items.size = 0 then { s' with addrTxs := s'.addrTxs.erase e.address } else s'

/-- The end of CleanItems: an empty record leaves the table. -/
def close (r : Nat) (address : Address) : SharedQueue :=
  if (s.record r).items.size = 0 then { s with addrTxs := s.addrTxs.erase address } else s

def getAddressNonce (address : Address) : Option Nat :=
  (s.addrTxs.lookup address).map fun r => (s.record r).maxNonce

def getAddressTxs (address : Address) (max : Int) : List (List UInt8) :=
  match s.addrTxs.lookup address with
  | none => []
  | some r =>
    let txs := (s.record r).items.entries.map fun entry => entry.2.tx.tx
    if max ≤ 0 ∨ (txs.length : Int) < max then txs else txs.take max.toNat

end SharedQueue

/-- What is left of a call. The numbers are records; `larger` has the sender's elements with larger
nonces, in order. -/
inductive Program
  | returned
  /-- Insert: find the sender's record, or put an empty one into the table. -/
  | findOrAdd (e : Element)
  | lockToAdd (r : Nat) (e : Element)
  | removeOld (r : Nat) (e : Element) (maxNonce : Nat) (old : Element) (larger : List Element)
  | dropOldKey (r : Nat) (e : Element) (maxNonce : Nat) (old : Element) (larger : List Element)
  | detach (r : Nat) (e : Element) (maxNonce : Nat) (left larger : List Element)
  | place (r : Nat) (e : Element) (maxNonce : Nat) (left : List Element)
  | unlock (r : Nat) (stored : Option Element)
  | storeKey (e : Element)
  /-- Remove. -/
  | removeElement (e : Element)
  | dropKey (e : Element)
  /-- RemoveByKey. -/
  | findKey (key : List UInt8)
  | removeFound (e : Element)
  /-- DeleteItem, the end of both. -/
  | findToDelete (e : Element)
  | delete (r : Nat) (e : Element)
  /-- CleanItems. -/
  | findToClean (address : Address) (nonce : Nat)
  | clean (r : Nat) (address : Address) (nonce : Nat)
  | cleaning (r : Nat) (address : Address) (left : List Element)
  | cleanKey (r : Nat) (address : Address) (v : Element) (left : List Element)
  | forget (r : Nat) (address : Address) (v : Element) (left : List Element)

namespace Program

variable (keys : KeyRegime) (txPriceBump : Int)

/-- checkRepeatedAndAddItem once it has the lock. -/
def admitted (am : ItemMap) (r : Nat) (e : Element) : Program :=
  if am.maxNonce < e.nonce then .place r e e.nonce [e]
  else
    match am.items.lookup e.nonce with
    | none => .place r e am.maxNonce [e]
    | some old =>
      if e.tx.gasPrice ≤ multiPriceBump old.tx.gasPrice txPriceBump then .unlock r none
      else
        let larger := (am.items.keep fun _ x => decide (e.nonce < x.nonce)).entries.map
          fun entry => entry.2
        .removeOld r e am.maxNonce old (larger.insertionSort fun x y => x.nonce ≤ y.nonce)

/-- One instruction. A call that finds a lock taken stays where it is; a panic ends the call and
releases its lock. -/
def exec (i : Nat) (s : SharedQueue) : Program → SharedQueue × Program
  | .returned => (s, .returned)
  | .findOrAdd e =>
    match s.addrTxs.lookup e.address with
    | some r => (s, .lockToAdd r e)
    | none =>
      ({ s with
          heap := s.heap.insert i ⟨∅, 0⟩
          addrTxs := s.addrTxs.insert e.address i }, .lockToAdd i e)
  | .lockToAdd r e =>
    match s.locks.lookup r with
    | some _ => (s, .lockToAdd r e)
    | none => (s.lock r i, admitted txPriceBump (s.record r) r e)
  | .removeOld r e maxNonce old larger =>
    match s.takeOut old with
    | none => (s.unlock r, .returned)
    | some s' => (s', .dropOldKey r e maxNonce old larger)
  | .dropOldKey r e maxNonce old larger => (s.dropKey keys old, .detach r e maxNonce larger larger)
  | .detach r e maxNonce [] larger => (s, .place r e maxNonce (e :: larger))
  | .detach r e maxNonce (x :: left) larger =>
    if x ∈ s.sortedTxs then
      ({ s with sortedTxs := s.sortedTxs.erase x }, .detach r e maxNonce left larger)
    else (s.unlock r, .returned)
  | .place r e maxNonce [] =>
    (s.setRecord r ⟨(s.record r).items.insert e.nonce e, maxNonce⟩, .unlock r (some e))
  | .place r e maxNonce (x :: left) =>
    match x.place s.sortedTxs with
    | none => (s.unlock r, .returned)
    | some txs => ({ s with sortedTxs := txs }, .place r e maxNonce left)
  | .unlock r none => (s.unlock r, .returned)
  | .unlock r (some e) => (s.unlock r, .storeKey e)
  | .storeKey e =>
    ({ s with
        sortedTxsMap :=
          s.sortedTxsMap.insert (keys.txOrTxHashToKey e.tx.tx e.tx.txHash e.tx.height) e },
      .returned)
  | .removeElement e =>
    match s.takeOut e with
    | none => (s, .returned)
    | some s' => (s', .dropKey e)
  | .dropKey e => (s.dropKey keys e, .findToDelete e)
  | .findKey key =>
    match s.sortedTxsMap.lookup key with
    | none => (s, .returned)
    | some e => ({ s with sortedTxsMap := s.sortedTxsMap.erase key }, .removeFound e)
  | .removeFound e =>
    match s.takeOut e with
    | none => (s, .returned)
    | some s' => (s', .findToDelete e)
  | .findToDelete e =>
    match s.addrTxs.lookup e.address with
    | none => (s, .returned)
    | some r => (s, .delete r e)
  | .delete r e =>
    match s.locks.lookup r with
    | some _ => (s, .delete r e)
    | none => (s.deleteItem r e, .returned)
  | .findToClean address nonce =>
    match s.addrTxs.lookup address with
    | none => (s, .returned)
    | some r => (s, .clean r address nonce)
  | .clean r address nonce =>
    match s.locks.lookup r with
    | some _ => (s, .clean r address nonce)
    | none =>
      (s.lock r i, .cleaning r address
          (((s.record r).items.keep fun _ v => decide (v.nonce ≤ nonce)).entries.map
            fun entry => entry.2))
  | .cleaning r address [] => ((s.close r address).unlock r, .returned)
  | .cleaning r address (v :: left) =>
    match s.takeOut v with
    | none => (s.unlock r, .returned)
    | some s' => (s', .cleanKey r address v left)
  | .cleanKey r address v left => (s.dropKey keys v, .forget r address v left)
  | .forget r address v left =>
    (s.setRecord r ⟨(s.record r).items.erase v.nonce, (s.record r).maxNonce⟩,
      .cleaning r address left)

end Program

inductive QueueCall
  | insert (t : MempoolTx)
  | remove (e : Element)
  | removeByKey (key : List UInt8)
  | cleanItems (address : Address) (nonce : Nat)

def QueueCall.program (i : Nat) : QueueCall → Program
  | .insert t => .findOrAdd ⟨i, t⟩
  | .remove e => .removeElement e
  | .removeByKey key => .findKey key
  | .cleanItems address nonce => .findToClean address nonce

def startCalls (calls : List QueueCall) : Interleaving.State SharedQueue Program where
  shared := newSharedQueue
  programs i := match calls[i]? with
    | some c => c.program i
    | none => .returned

end Exchain.Mempool
