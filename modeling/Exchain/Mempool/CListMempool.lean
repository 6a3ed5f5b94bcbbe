import Exchain.Mempool.QueueInsert

namespace Exchain.Mempool

/-- The part of the mempool that accounts for bytes. Its size is a dynamic setting, passed to the
operations that read it. -/
structure CListMempool where
  txs : GasTxQueue
  txsBytes : Int
  maxTxsBytes : Nat

/-- A transaction of a block with its result code; sender and nonce are what the raw
transaction parses to. -/
structure BlockTx where
  tx : List UInt8
  txHash : List UInt8
  sender : Address
  nonce : Nat
  code : Nat

def codeTypeOK : Nat := 0

def codeTypeNonceInc : Nat := 100000

/-- The account's nonce moved: the transaction ran, or failed after paying. -/
def BlockTx.nonceMoved (b : BlockTx) : Bool :=
  decide (b.code = codeTypeOK) || decide (codeTypeNonceInc < b.code)

structure MempoolIsFull where
  numTxs : Nat
  maxTxs : Nat
  txsBytes : Int
  maxTxsBytes : Nat

namespace CListMempool

def new (txPriceBump : Int) (maxTxsBytes : Nat) : CListMempool where
  txs := newGasTxQueue txPriceBump
  txsBytes := 0
  maxTxsBytes := maxTxsBytes

variable (keys : KeyRegime)

variable (mem : CListMempool)

def size : Nat := mem.txs.sortedTxs.length

def addTx (t : MempoolTx) : Except InsertError CListMempool :=
  match mem.txs.insert keys t with
  | .error e => .error e
  | .ok q => .ok { mem with txs := q, txsBytes := mem.txsBytes + t.tx.length }

def removeTx (e : MempoolTx) : CListMempool :=
  { mem with txs := mem.txs.remove keys e, txsBytes := mem.txsBytes - e.tx.length }

def removeTxByKey (key : List UInt8) : Option MempoolTx × CListMempool :=
  match mem.txs.removeByKey key with
  | (none, q) => (none, { mem with txs := q })
  | (some e, q) => (some e, { mem with txs := q, txsBytes := mem.txsBytes - e.tx.length })

def isFull (mempoolSize txSize : Nat) : Except MempoolIsFull Unit :=
  if mempoolSize ≤ mem.size ∨ (mem.maxTxsBytes : Int) < txSize + mem.txsBytes then
    .error ⟨mem.size, mempoolSize, mem.txsBytes, mem.maxTxsBytes⟩
  else
    .ok ()

def overLimit (mempoolSize : Nat) : Bool :=
  decide (mempoolSize < mem.size) || decide ((mem.maxTxsBytes : Int) < mem.txsBytes)

/-- The loop of deleteMinGPTxOnlyFull; each turn takes the last element out, so there are at most as
many as elements. The flag is false when the loop ends in the nil dereference of an empty queue's
Back(). -/
def deleteMinLoop (mempoolSize : Nat) : Nat → CListMempool → CListMempool × Bool
  | 0, mem => (mem, !mem.overLimit mempoolSize)
  | fuel + 1, mem =>
    if mem.overLimit mempoolSize then
      match mem.txs.sortedTxs.getLast? with
      | some e => deleteMinLoop mempoolSize fuel (mem.removeTx keys e)
      | none => (mem, false)
    else
      (mem, true)

def deleteMinGPTxOnlyFull (mempoolSize : Nat) : CListMempool × Bool :=
  deleteMinLoop keys mempoolSize mem.size mem

/-- A recheck pass: the application's verdict on every queued transaction in turn. -/
def recheckTxs (valid : MempoolTx → Bool) : CListMempool :=
  mem.txs.sortedTxs.foldl (fun acc e => if valid e then acc else acc.removeTx keys e) mem

def cleanTx (height : Int) (b : BlockTx) : Option MempoolTx × CListMempool :=
  mem.removeTxByKey (keys.txOrTxHashToKey b.tx b.txHash height)

/-- The block loop of Update: committed transactions leave the queue, and the accounts whose nonces
moved are collected; a sealed mempool only collects those of transactions it held. -/
def cleanBlock (height : Int) (isSealed : Bool) :
    List BlockTx → CListMempool → AssocMap Address Nat → CListMempool × AssocMap Address Nat
  | [], mem, toClean => (mem, toClean)
  | b :: rest, mem, toClean =>
    match mem.cleanTx keys height b with
    | (some e, mem') =>
      cleanBlock height isSealed rest mem'
        (if b.nonceMoved then toClean.insert e.fromAddr e.nonce else toClean)
    | (none, mem') =>
      cleanBlock height isSealed rest mem'
        (if b.nonceMoved && !isSealed then toClean.insert b.sender b.nonce else toClean)

def cleanAccounts (toClean : AssocMap Address Nat) : CListMempool :=
  { mem with
    txs := toClean.entries.foldl (fun acc entry => acc.cleanItems keys entry.1 entry.2) mem.txs }

/-- The configuration Update reads: whether to recheck, with the verdicts, and whether to shrink to
a size afterwards. -/
structure UpdateConfig where
  isSealed : Bool
  recheck : Option (MempoolTx → Bool)
  deleteMin : Option Nat

def update (height : Int) (block : List BlockTx) (config : UpdateConfig) : CListMempool × Bool :=
  if config.isSealed && mem.size == 0 then (mem, true)
  else
    let (removed, toClean) := cleanBlock keys height config.isSealed block mem ∅
    let cleaned := removed.cleanAccounts keys toClean
    if config.isSealed then (cleaned, true)
    else
      let checked := match config.recheck with
        | some valid => cleaned.recheckTxs keys valid
        | none => cleaned
      match config.deleteMin with
      | some mempoolSize => checked.deleteMinGPTxOnlyFull keys mempoolSize
      | none => (checked, true)

end CListMempool

end Exchain.Mempool
