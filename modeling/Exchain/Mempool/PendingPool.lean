import Exchain.Lib.AssocMap
import Exchain.Mempool.Tx

/-
Transactions whose nonce is not the sender's next one wait in the pending pool.
The pool holds each of them twice: under its hash and under its sender and
nonce. The hash regime is fixed, so a transaction's ID depends on its bytes only.
-/
namespace Exchain.Mempool

structure PendingPool where
  maxSize : Nat
  addressTxsMap : AssocMap Address (AssocMap Nat MempoolTx)
  txsMap : AssocMap String MempoolTx
  reserveBlocks : Nat
  periodCounter : AssocMap Address Nat
  maxTxPerAddress : Nat

inductive PendingPoolError
  | txAlreadyInPendingPool (txHash : String)
  | pendingPoolIsFull (size maxSize : Nat)
  | pendingPoolAddressLimit (address : Address) (size maxSize : Nat)
  deriving DecidableEq, Repr

def newPendingPool (maxSize reserveBlocks maxTxPerAddress : Nat) : PendingPool where
  maxSize := maxSize
  addressTxsMap := ∅
  txsMap := ∅
  reserveBlocks := reserveBlocks
  periodCounter := ∅
  maxTxPerAddress := maxTxPerAddress

namespace PendingPool

variable (txID : List UInt8 → String)

variable (p : PendingPool)

def size : Nat := p.txsMap.size

def txCount (address : Address) : Nat := match p.addressTxsMap.lookup address with
  | none => 0
  | some txs => txs.size

def getTx (address : Address) (nonce : Nat) : Option MempoolTx :=
  (p.addressTxsMap.lookup address).bind (AList.lookup nonce)

def hasTx (tx : List UInt8) : Bool := (p.txsMap.lookup (txID tx)).isSome

def validate (address : Address) (tx : List UInt8) : Except PendingPoolError Unit :=
  if p.hasTx txID tx then
    .error (.txAlreadyInPendingPool (txID tx))
  else if p.maxSize ≤ p.size then
    .error (.pendingPoolIsFull p.size p.maxSize)
  else if p.maxTxPerAddress ≤ p.txCount address then
    .error (.pendingPoolAddressLimit address (p.txCount address) p.maxTxPerAddress)
  else
    .ok ()

/-- The blacklist is the comma-separated configuration text, split; an empty entry
blocks nobody. -/
def blacklisted (blacklist : List Address) (t : MempoolTx) : Bool :=
  blacklist.any fun address => address != "" && t.fromAddr == address

def addTx (blacklist : List Address) (t : MempoolTx) : PendingPool :=
  if blacklisted blacklist t then p
  else
    let txs := (p.addressTxsMap.lookup t.fromAddr).getD ∅
    { p with
      addressTxsMap := p.addressTxsMap.insert t.fromAddr (txs.insert t.nonce t)
      txsMap := p.txsMap.insert (txID t.tx) t }

/-- The shared tail of removeTx and removeTxByHash: an address left without transactions goes with
its counter, others are lowered. -/
def settle (address : Address) (txs : AssocMap Nat MempoolTx) : PendingPool :=
  if txs.size = 0 then
    { p with
      addressTxsMap := p.addressTxsMap.erase address
      periodCounter := p.periodCounter.erase address }
  else
    { p with
      addressTxsMap := p.addressTxsMap.insert address txs
      periodCounter := match p.periodCounter.lookup address with
        | some count => if 0 < count then p.periodCounter.insert address (count - 1)
            else p.periodCounter
        | none => p.periodCounter }

def removeTx (address : Address) (nonce : Nat) : PendingPool :=
  match p.addressTxsMap.lookup address with
  | none => p
  | some txs =>
    match txs.lookup nonce with
    | none => p.settle address txs
    | some t =>
      { p with txsMap := p.txsMap.erase (txID t.tx) }.settle address (txs.erase nonce)

def removeTxByHash (txHash : String) : PendingPool :=
  match p.txsMap.lookup txHash with
  | none => p
  | some t =>
    let p' := { p with txsMap := p.txsMap.erase txHash }
    match p.addressTxsMap.lookup t.fromAddr with
    | none => p'
    | some txs => p'.settle t.fromAddr (txs.erase t.nonce)

/-- One address of handlePendingTx: transactions the account has passed are deleted. -/
def handlePendingAddr (address : Address) (accountNonce : Nat) : PendingPool :=
  match p.addressTxsMap.lookup address with
  | none => p
  | some txs =>
    let stale := txs.keep fun nonce _ => decide (nonce ≤ accountNonce)
    let left := txs.keep fun nonce _ => decide (accountNonce < nonce)
    { p with
      txsMap := p.txsMap.eraseAll (stale.entries.map fun e => txID e.2.tx)
      addressTxsMap := if left.size = 0 then p.addressTxsMap.erase address
        else p.addressTxsMap.insert address left }

def handlePendingTx (addressNonce : AssocMap Address Nat) : PendingPool :=
  addressNonce.entries.foldl (fun acc e => acc.handlePendingAddr txID e.1 e.2) p

/-- The addresses whose next transaction is pending, with its nonce: what
handlePendingTx returns. -/
def handlePendingTxReady (addressNonce : AssocMap Address Nat) : List (Address × Nat) :=
  addressNonce.entries.filterMap fun e =>
    (p.getTx e.1 (e.2 + 1)).map fun _ => (e.1, e.2 + 1)

def handlePeriodAddr (address : Address) (txs : AssocMap Nat MempoolTx) : PendingPool :=
  let count := (p.periodCounter.lookup address).getD 0
  if p.reserveBlocks ≤ count then
    { p with
      addressTxsMap := p.addressTxsMap.erase address
      txsMap := p.txsMap.eraseAll (txs.entries.map fun e => txID e.2.tx)
      periodCounter := p.periodCounter.erase address }
  else
    { p with periodCounter := p.periodCounter.insert address (count + 1) }

def handlePeriodCounter : PendingPool :=
  p.addressTxsMap.entries.foldl (fun acc e => acc.handlePeriodAddr txID e.1 e.2) p

end PendingPool

end Exchain.Mempool
