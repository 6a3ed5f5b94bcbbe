import Mathlib.Data.BitVec

/-! State objects of the EVM module: an account with the parts loaded on demand (code, storage
slots) and the slots written since. Before the Mars height code and storage live in the module's
key-value store, after it in tries and a raw code database; a trie is modelled by the map it holds.
-/

namespace Exchain.Evm

abbrev Address := BitVec 160

abbrev Hash := BitVec 256

abbrev Code := List UInt8

/-- What the state objects read of an account; `none` is a missing code hash. -/
structure Account where
  balance : Nat
  sequence : UInt64
  codeHash : Option Hash
  deriving DecidableEq

/-- The chain's constants: the Mars switch, the code's hash function and the bank's blacklist. -/
structure Config where
  higherThanMars : Bool
  keccak : Code → Hash
  blacklistedAddr : Address → Bool

def Config.emptyCodeHash (cfg : Config) : Hash := cfg.keccak []

/-- The key-value store: accounts, storage slots under an address prefix, code by hash. -/
structure KV where
  accounts : Address → Option Account
  storage : Address → Hash → Hash
  code : Hash → Option Code

/-- The post-Mars databases: each contract's committed storage trie and the raw code database. -/
structure Mpt where
  storageTries : Address → Hash → Hash
  code : Hash → Option Code

@[ext] structure Db where
  kv : KV
  mpt : Mpt

/-- A missing code hash stands for the hash of no code. -/
def Account.withCodeHash (cfg : Config) (account : Account) : Account :=
  { account with codeHash := some (account.codeHash.getD cfg.emptyCodeHash) }

structure StateObject where
  account : Account
  trie : Hash → Hash
  code : Option Code
  originStorage : Hash → Option Hash
  pendingStorage : Hash → Option Hash
  dirtyStorage : Hash → Option Hash
  dirtyCode : Bool
  suicided : Bool
  deleted : Bool

def emptyTrie : Hash → Hash := fun _ => 0

def newStateObject (cfg : Config) (account : Account) (trie : Hash → Hash) : StateObject where
  account := account.withCodeHash cfg
  trie := trie
  code := none
  originStorage := fun _ => none
  pendingStorage := fun _ => none
  dirtyStorage := fun _ => none
  dirtyCode := false
  suicided := false
  deleted := false

namespace StateObject

variable (cfg : Config) (db : Db) (addr : Address)

variable (so : StateObject)

def codeHash : Hash := so.account.codeHash.getD cfg.emptyCodeHash

/-- The slot as the store holds it: the object's own trie after Mars, the KV store before. -/
def readSlot (key : Hash) : Hash :=
  if cfg.higherThanMars then so.trie key else db.kv.storage addr key

/-- The value and the object afterwards: a slot read from the store is remembered. -/
def getCommittedState (key : Hash) : Hash × StateObject :=
  match so.pendingStorage key with
  | some value => (value, so)
  | none =>
    match so.originStorage key with
    | some value => (value, so)
    | none =>
      let value := so.readSlot cfg db addr key
      (value, { so with originStorage := Function.update so.originStorage key (some value) })

def getState (key : Hash) : Hash × StateObject := match so.dirtyStorage key with
  | some value => (value, so)
  | none => so.getCommittedState cfg db addr key

def codeInRawDB : Option Code × StateObject := match so.code with
  | some code => (some code, so)
  | none =>
    if so.codeHash cfg = cfg.emptyCodeHash then (none, so)
    else
      -- the raw database reports empty code as missing
      let code := db.mpt.code (so.codeHash cfg)
      if code.getD [] = [] then (none, so) else (code, { so with code := code })

/-- The code and the object afterwards: code read from the store is remembered. -/
def getCode : Option Code × StateObject :=
  if cfg.higherThanMars then so.codeInRawDB cfg db
  else if so.code.getD [] ≠ [] then (so.code, so)
  else if so.codeHash cfg = cfg.emptyCodeHash then (none, so)
  else
    let code := db.kv.code (so.codeHash cfg)
    (code, if code.getD [] = [] then so else { so with code := code })

def setBalance (amount : Nat) : StateObject :=
  { so with account := { so.account with balance := amount } }

def setNonce (nonce : UInt64) : StateObject :=
  { so with account := { so.account with sequence := nonce } }

def setState (key value : Hash) : StateObject :=
  { so with dirtyStorage := Function.update so.dirtyStorage key (some value) }

def setCode (codeHash : Hash) (code : Option Code) : StateObject :=
  { so with code := code, account := { so.account with codeHash := some codeHash },
            dirtyCode := true }

def setSuicided (mark : Bool) : StateObject := { so with suicided := mark }

/-- Empty in the sense of EIP-161; a missing code hash is not the hash of no code here. -/
def empty : Bool :=
  so.account.sequence = 0 ∧ so.account.balance = 0 ∧ so.account.codeHash = some cfg.emptyCodeHash

def finalise : StateObject :=
  { so with pendingStorage := fun key => so.dirtyStorage key <|> so.pendingStorage key,
            dirtyStorage := fun _ => none }

/-- The slots a commit writes: the pending ones that differ from what was loaded. -/
def writtenSlots (key : Hash) : Option Hash :=
  match so.finalise.pendingStorage key with
  | some value => if value = (so.originStorage key).getD 0 then none else some value
  | none => none

end StateObject

end Exchain.Evm
