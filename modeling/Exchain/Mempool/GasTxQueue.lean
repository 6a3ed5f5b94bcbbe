import Mathlib.Data.List.Sort
import Exchain.Lib.AssocMap
import Exchain.Mempool.CList

namespace Exchain.Mempool

/-- Hashing of raw transactions, and the heights from which one is keyed by the hash it carries. -/
structure KeyRegime where
  txKey : List UInt8 → List UInt8
  higherThanVenus : Int → Bool

namespace KeyRegime

/-- A regime without hashing, at heights before the hash rule changes. -/
def raw : KeyRegime where
  txKey := id
  higherThanVenus _ := false

def txOrTxHashToKey (keys : KeyRegime) (tx txHash : List UInt8) (height : Int) : List UInt8 :=
  if txHash.length = 32 ∧ keys.higherThanVenus height = true then txHash
  else keys.txKey tx

/-- What the decoder guarantees of a transaction keyed by the rule of the height it was decoded at:
it refuses empty bytes, and the hash carried is that of its own bytes. -/
structure Decoded (keys : KeyRegime) (t : MempoolTx) : Prop where
  nonempty : t.tx ≠ []
  hash : keys.higherThanVenus t.height = true → t.txHash.length = 32 → t.txHash = keys.txKey t.tx

theorem txOrTxHashToKey_eq {keys : KeyRegime} {t : MempoolTx} (decoded : keys.Decoded t) :
    keys.txOrTxHashToKey t.tx t.txHash t.height = keys.txKey t.tx := by
  unfold txOrTxHashToKey
  split
  · rename_i carried
    exact decoded.hash carried.2 carried.1
  · rfl

end KeyRegime

/-- The transactions of one address by nonce, with the largest nonce seen. -/
structure AddrMap where
  items : AssocMap Nat MempoolTx
  maxNonce : Nat

/-- The transactions of an address whose nonces a loop over the items selects. -/
def AddrMap.itemsWhere (am : AddrMap) (select : Nat → Bool) : List MempoolTx :=
  (am.items.keep fun nonce _ => select nonce).entries.map fun entry => entry.2

structure GasTxQueue where
  txPriceBump : Int
  sortedTxs : List MempoolTx
  sortedTxsMap : AssocMap (List UInt8) MempoolTx
  bcTxs : List MempoolTx
  bcTxsMap : AssocMap (List UInt8) MempoolTx
  addrTxs : AssocMap Address AddrMap

def newGasTxQueue (txPriceBump : Int) : GasTxQueue where
  txPriceBump := txPriceBump
  sortedTxs := []
  sortedTxsMap := ∅
  bcTxs := []
  bcTxsMap := ∅
  addrTxs := ∅

inductive InsertError
  | notBigEnough (account : Address) (nonce : Nat) (gasPrice : Int)
  /-- The panic of InsertElement on an element with the same address and nonce. -/
  | sameNonce
  deriving DecidableEq, Repr

def multiPriceBump (rawPrice priceBump : Int) : Int := rawPrice / 100 * priceBump + rawPrice

/-- The loop that keeps the larger value: nothing it has met exceeds its result, which it started
from or has met. -/
theorem foldl_larger_spec {α : Type} (f : α → Nat) (l : List α) (acc : Nat) :
    let top := l.foldl (fun acc x => if acc < f x then f x else acc) acc
    acc ≤ top ∧ (∀ x ∈ l, f x ≤ top) ∧ (top = acc ∨ ∃ x ∈ l, f x = top) := by
  induction l generalizing acc with
  | nil => simp
  | cons head rest ih =>
    obtain ⟨lower, others, attained⟩ := ih (if acc < f head then f head else acc)
    have first : acc ≤ (if acc < f head then f head else acc) ∧
        f head ≤ (if acc < f head then f head else acc) := by
      split <;> omega
    dsimp only [List.foldl_cons]
    refine ⟨first.1.trans lower, ?_, ?_⟩
    · exact List.forall_mem_cons.mpr ⟨first.2.trans lower, others⟩
    rcases attained with same | ⟨x, later, reached⟩
    · rw [same]
      split
      · exact .inr ⟨head, List.mem_cons_self, rfl⟩
      · exact .inl rfl
    · exact .inr ⟨x, List.mem_cons_of_mem _ later, reached⟩

def calculateMaxNonce (items : AssocMap Nat MempoolTx) : Nat :=
  items.entries.foldl (fun acc e => if acc < e.1 then e.1 else acc) 0

namespace GasTxQueue

variable (keys : KeyRegime) (q : GasTxQueue)

/-- The list part of removeElement and the two transaction maps, keyed by the hash of the raw bytes.
-/
def removeElement (e : MempoolTx) : GasTxQueue :=
  { q with
    sortedTxs := q.sortedTxs.erase e
    sortedTxsMap := q.sortedTxsMap.erase (keys.txKey e.tx)
    bcTxsMap := q.bcTxsMap.erase (keys.txKey e.tx)
    bcTxs := match q.bcTxsMap.lookup (keys.txKey e.tx) with
      | some b => q.bcTxs.erase b
      | none => q.bcTxs }

def insertElements (items : List MempoolTx) (txs : List MempoolTx) : Option (List MempoolTx) :=
  items.foldlM (fun acc e => insertElement e acc) txs

/-- Sort by nonce, detach all but the first and insert them again in that order. -/
def reorganizeElements (items : List MempoolTx) : Option GasTxQueue :=
  let sorted := items.insertionSort fun x y => x.nonce ≤ y.nonce
  let detached := sorted.tail.foldl (fun acc e => acc.erase e) q.sortedTxs
  (insertElements sorted detached).map fun txs => { q with sortedTxs := txs }

def record (address : Address) (am : AddrMap) : GasTxQueue :=
  { q with addrTxs := q.addrTxs.insert address am }

def checkRepeatedAndAddItem (t : MempoolTx) : Except InsertError GasTxQueue :=
  let am := (q.addrTxs.lookup t.fromAddr).getD ⟨∅, 0⟩
  let added := am.items.insert t.nonce t
  if am.maxNonce < t.nonce then
    match insertElement t q.sortedTxs with
    | none => .error .sameNonce
    | some txs => .ok ({ q with sortedTxs := txs }.record t.fromAddr ⟨added, t.nonce⟩)
  else
    match am.items.lookup t.nonce with
    | some old =>
      if t.gasPrice ≤ multiPriceBump old.gasPrice q.txPriceBump then
        .error (.notBigEnough t.fromAddr t.nonce t.gasPrice)
      else
        let larger := am.itemsWhere fun nonce => decide (t.nonce < nonce)
        match (q.removeElement keys old).reorganizeElements (t :: larger) with
        | none => .error .sameNonce
        | some q' => .ok (q'.record t.fromAddr ⟨added, am.maxNonce⟩)
    | none =>
      match insertElement t q.sortedTxs with
      | none => .error .sameNonce
      | some txs => .ok ({ q with sortedTxs := txs }.record t.fromAddr ⟨added, am.maxNonce⟩)

def insert (t : MempoolTx) : Except InsertError GasTxQueue :=
  match q.checkRepeatedAndAddItem keys t with
  | .error e => .error e
  | .ok q' =>
    .ok { q' with
      sortedTxsMap := q'.sortedTxsMap.insert (keys.txOrTxHashToKey t.tx t.txHash t.height) t
      bcTxs := q'.bcTxs ++ [t]
      bcTxsMap := q'.bcTxsMap.insert (keys.txOrTxHashToKey t.tx t.txHash t.height) t }

def deleteItem (e : MempoolTx) : GasTxQueue :=
  match q.addrTxs.lookup e.fromAddr with
  | none => q
  | some am =>
    let items := am.items.erase e.nonce
    if items.size = 0 then { q with addrTxs := q.addrTxs.erase e.fromAddr }
    else q.record e.fromAddr ⟨items, calculateMaxNonce items⟩

def remove (e : MempoolTx) : GasTxQueue := (q.removeElement keys e).deleteItem e

def removeElementByKey (key : List UInt8) : Option MempoolTx × GasTxQueue :=
  match q.sortedTxsMap.lookup key with
  | none => (none, q)
  | some e =>
    (some e,
      { q with
        sortedTxs := q.sortedTxs.erase e
        sortedTxsMap := q.sortedTxsMap.erase key
        bcTxsMap := q.bcTxsMap.erase key
        bcTxs := match q.bcTxsMap.lookup key with
          | some b => q.bcTxs.erase b
          | none => q.bcTxs })

def removeByKey (key : List UInt8) : Option MempoolTx × GasTxQueue :=
  match q.removeElementByKey key with
  | (none, q') => (none, q')
  | (some e, q') => (some e, q'.deleteItem e)

def cleanItems (address : Address) (nonce : Nat) : GasTxQueue :=
  match q.addrTxs.lookup address with
  | none => q
  | some am =>
    let left := am.items.keep fun n _ => decide (nonce < n)
    let stale := am.itemsWhere fun n => decide (n ≤ nonce)
    let cleaned := stale.foldl (fun acc e => acc.removeElement keys e) q
    if left.size = 0 then { cleaned with addrTxs := cleaned.addrTxs.erase address }
    else cleaned.record address ⟨left, am.maxNonce⟩

end GasTxQueue

end Exchain.Mempool
