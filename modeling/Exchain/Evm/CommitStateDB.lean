import Exchain.Lib.AssocMap
import Exchain.Lib.Snapshots
import Exchain.Evm.AccessList

/-! The EVM's state database: cached state objects over the stores, the journal of changes and the
stack of snapshots. An operation returns the state afterwards or its panic. The database a state
reads is part of it. -/

namespace Exchain.Evm

/-- The previous values of the store entries that one write-back has changed. -/
structure SnapshotWSet where
  accounts : Address → Option (Option Account)
  storage : Address → Hash → Option Hash
  code : Hash → Option (Option Code)

/-- The journal's entries. A replaced object is kept with its address. -/
inductive JournalEntry
  | createObjectChange (account : Address)
  | resetObjectChange (account : Address) (prev : StateObject)
  | suicideChange (account : Address) (prev : Bool) (prevBalance : Nat)
  | balanceChange (account : Address) (prev : Nat)
  | nonceChange (account : Address) (prev : UInt64)
  | storageChange (account : Address) (key prevValue : Hash)
  | codeChange (account : Address) (prevHash : Hash) (prevCode : Option Code)
  | refundChange (prev : UInt64)
  | addLogChange (txhash : Hash)
  | addPreimageChange (hash : Hash)
  | touchChange (account : Address)
  | accessListAddAccountChange (address : Address)
  | accessListAddSlotChange (address : Address) (slot : Hash)
  | cmChange (sets : SnapshotWSet)

def JournalEntry.dirtied : JournalEntry → Option Address
  | createObjectChange account | suicideChange account _ _ | balanceChange account _
  | nonceChange account _ | storageChange account _ _ | codeChange account _ _
  | touchChange account => some account
  | _ => none

/-- The entries, the newest first, and the number of changes of each dirty account. -/
structure Journal where
  entries : List JournalEntry
  dirties : AssocMap Address Nat

def Journal.dirty (j : Journal) (addr : Address) : Journal :=
  { j with dirties := j.dirties.insert addr ((j.dirties.lookup addr).getD 0 + 1) }

def Journal.append (j : Journal) (entry : JournalEntry) : Journal :=
  let j := { j with entries := entry :: j.entries }
  match entry.dirtied with
  | some addr => j.dirty addr
  | none => j

@[simp] theorem Journal.entries_append (j : Journal) (entry : JournalEntry) :
    (j.append entry).entries = entry :: j.entries := by
  unfold append dirty
  split <;> rfl

/-- Drops the dirty tracking that an undone entry had induced. -/
def Journal.undirty (j : Journal) (entry : JournalEntry) : Journal := match entry.dirtied with
  | some addr =>
    let count := (j.dirties.lookup addr).getD 0 - 1
    { j with dirties := if count = 0 then j.dirties.erase addr else j.dirties.insert addr count }
  | none => j

structure Log where
  address : Address
  topics : List Hash
  data : List UInt8
  txHash : Hash
  blockHash : Hash
  txIndex : Nat
  index : UInt64
  deriving DecidableEq

/-- What a transaction accumulates beside the accounts. -/
structure Substate where
  refund : UInt64
  logs : Hash → List Log
  logSize : UInt64
  preimages : Hash → Option (List UInt8)
  accessList : AccessList

structure CommitStateDB where
  db : Db
  stateObjects : AssocMap Address StateObject
  updatedAccount : Address → Bool
  substate : Substate
  thash : Hash
  bhash : Hash
  txIndex : Nat
  journal : Journal
  validRevisions : List Snapshots.Mark
  nextRevisionID : Nat

inductive Panic
  | nilObject
  | negativeBalance
  | refundBelowZero
  | slotNotPresent
  | revisionCannotBeReverted
  deriving DecidableEq

namespace CommitStateDB

variable (cfg : Config)

/-- The state database a transaction starts with: nothing cached, nothing marked. -/
def newCommitStateDB (db : Db) (thash bhash : Hash) (txIndex : Nat) : CommitStateDB where
  db := db
  stateObjects := ∅
  updatedAccount := fun _ => false
  substate := ⟨0, fun _ => [], 0, fun _ => none, AccessList.new⟩
  thash := thash
  bhash := bhash
  txIndex := txIndex
  journal := ⟨[], ∅⟩
  validRevisions := []
  nextRevisionID := 0

variable (s : CommitStateDB) (addr : Address)

def setStateObject (so : StateObject) : CommitStateDB :=
  { s with stateObjects := s.stateObjects.insert addr so }

def append (entry : JournalEntry) : CommitStateDB :=
  { s with journal := s.journal.append entry }

def loadObject (db : Db) (addr : Address) (account : Account) : StateObject :=
  newStateObject cfg account (if cfg.higherThanMars then db.mpt.storageTries addr else emptyTrie)

/-- The object with the account as the store holds it, `none` when it holds none. -/
def updateAccInfo (so : StateObject) : Option StateObject :=
  (s.db.kv.accounts addr).map fun account => { so with account := account }

/-- The cached or stored object, a deleted one included, and the state afterwards. -/
def getDeletedStateObject : Option StateObject × CommitStateDB :=
  match s.stateObjects.lookup addr with
  | some so =>
    if s.updatedAccount addr then
      let s := { s with updatedAccount := Function.update s.updatedAccount addr false }
      match s.updateAccInfo addr so with
      | some so => (some so, s.setStateObject addr so)
      | none => (none, s)
    else (some so, s)
  | none =>
    match s.db.kv.accounts addr with
    | none => (none, s)
    | some account =>
      let so := loadObject cfg s.db addr account
      (some so, s.setStateObject addr so)

def getStateObject : Option StateObject × CommitStateDB :=
  let (so, s) := s.getDeletedStateObject cfg addr
  (so.filter (!·.deleted), s)

/-- The account keeper's account for a new address. -/
def newAccountWithAddress : Account where
  balance := 0
  sequence := 0
  codeHash := some cfg.emptyCodeHash

/-- The new object, the one it replaces and the state afterwards. -/
def createObject : StateObject × Option StateObject × CommitStateDB :=
  let (prev, s) := s.getStateObject cfg addr
  let so := newStateObject cfg (newAccountWithAddress cfg) emptyTrie
  let s := s.append <| match prev with
    | none => .createObjectChange addr
    | some prev => .resetObjectChange addr prev
  (so, prev, s.setStateObject addr so)

def getOrNewStateObject : StateObject × CommitStateDB :=
  match s.getStateObject cfg addr with
  | (some so, s) => (so, s)
  | (none, s) =>
    let (so, _, s) := s.createObject cfg addr
    (so, s)

/-- The setter of a state object: journals the balance, then panics on a negative amount. -/
def setObjectBalance (so : StateObject) (amount : Int) : Except Panic CommitStateDB :=
  let s := s.append (.balanceChange addr so.account.balance)
  if amount < 0 then .error .negativeBalance
  else .ok (s.setStateObject addr (so.setBalance amount.toNat))

def setBalance (amount : Int) : Except Panic CommitStateDB :=
  let (so, s) := s.getOrNewStateObject cfg addr
  s.setObjectBalance addr so amount

def ripemd : Address := 3

def touch : CommitStateDB :=
  let s := s.append (.touchChange addr)
  if addr = ripemd then { s with journal := s.journal.dirty addr } else s

def addBalance (amount : Int) : Except Panic CommitStateDB :=
  let (so, s) := s.getOrNewStateObject cfg addr
  if amount = 0 then .ok (if so.empty cfg then s.touch addr else s)
  else s.setObjectBalance addr so (so.account.balance + amount)

def subBalance (amount : Int) : Except Panic CommitStateDB :=
  let (so, s) := s.getOrNewStateObject cfg addr
  if amount = 0 then .ok s
  else s.setObjectBalance addr so (so.account.balance - amount)

def setNonce (nonce : UInt64) : CommitStateDB :=
  let (so, s) := s.getOrNewStateObject cfg addr
  (s.append (.nonceChange addr so.account.sequence)).setStateObject addr (so.setNonce nonce)

def setState (key value : Hash) : CommitStateDB :=
  let (so, s) := s.getOrNewStateObject cfg addr
  let (prev, so) := so.getState cfg s.db addr key
  let s := s.setStateObject addr so
  if prev = value then s
  else (s.append (.storageChange addr key prev)).setStateObject addr (so.setState key value)

def setCode (code : Option Code) : CommitStateDB :=
  let (so, s) := s.getOrNewStateObject cfg addr
  let (prevCode, so) := so.getCode cfg s.db
  let s := s.setStateObject addr so
  (s.append (.codeChange addr (so.codeHash cfg) prevCode)).setStateObject addr
    (so.setCode (cfg.keccak (code.getD [])) code)

def createAccount : CommitStateDB :=
  match s.createObject cfg addr with
  | (so, some prev, s) => s.setStateObject addr (so.setBalance prev.account.balance)
  | (_, none, s) => s

def suicide : CommitStateDB :=
  match s.getStateObject cfg addr with
  | (none, s) => s
  | (some so, s) =>
    let s := s.append (.suicideChange addr so.suicided so.account.balance)
    let s := s.append (.balanceChange addr so.account.balance)
    s.setStateObject addr ((so.setSuicided true).setBalance 0)

def addLog (address : Address) (topics : List Hash) (data : List UInt8) : CommitStateDB :=
  let s := s.append (.addLogChange s.thash)
  let log : Log := ⟨address, topics, data, s.thash, s.bhash, s.txIndex, s.substate.logSize⟩
  { s with substate := { s.substate with
      logSize := s.substate.logSize + 1
      logs := Function.update s.substate.logs s.thash (s.substate.logs s.thash ++ [log]) } }

def addPreimage (hash : Hash) (preimage : List UInt8) : CommitStateDB :=
  match s.substate.preimages hash with
  | some _ => s
  | none =>
    let s := s.append (.addPreimageChange hash)
    { s with substate := { s.substate with
        preimages := Function.update s.substate.preimages hash (some preimage) } }

def addRefund (gas : UInt64) : CommitStateDB :=
  let s := s.append (.refundChange s.substate.refund)
  { s with substate := { s.substate with refund := s.substate.refund + gas } }

def subRefund (gas : UInt64) : Except Panic CommitStateDB :=
  let s := s.append (.refundChange s.substate.refund)
  if s.substate.refund < gas then .error .refundBelowZero
  else .ok { s with substate := { s.substate with refund := s.substate.refund - gas } }

def withAccessList (al : AccessList) : CommitStateDB :=
  { s with substate := { s.substate with accessList := al } }

def addAddressToAccessList : CommitStateDB :=
  match s.substate.accessList.addAddress addr with
  | (al, true) => (s.withAccessList al).append (.accessListAddAccountChange addr)
  | (al, false) => s.withAccessList al

def addSlotToAccessList (slot : Hash) : CommitStateDB :=
  let (al, addrMod, slotMod) := s.substate.accessList.addSlot addr slot
  let s := s.withAccessList al
  let s := if addrMod then s.append (.accessListAddAccountChange addr) else s
  if slotMod then s.append (.accessListAddSlotChange addr slot) else s

end CommitStateDB

end Exchain.Evm
