import Exchain.Evm.CommitStateDB
import Exchain.Lib.PartialRun

namespace Exchain.Evm

/-- Writes the entries of a write set back over the store. -/
def KV.write (kv : KV) (sets : SnapshotWSet) : KV where
  accounts := fun addr => (sets.accounts addr).getD (kv.accounts addr)
  storage := fun addr key => (sets.storage addr key).getD (kv.storage addr key)
  code := fun hash => (sets.code hash).getD (kv.code hash)

/-- The store's present values at the entries a write set names. -/
def KV.prevValues (kv : KV) (sets : SnapshotWSet) : SnapshotWSet where
  accounts := fun addr => (sets.accounts addr).map fun _ => kv.accounts addr
  storage := fun addr key => (sets.storage addr key).map fun _ => kv.storage addr key
  code := fun hash => (sets.code hash).map fun _ => kv.code hash

theorem KV.write_prevValues (kv : KV) (sets : SnapshotWSet) :
    (kv.write sets).write (kv.prevValues sets) = kv := by
  obtain ⟨_, _⟩ := kv
  simp only [KV.write, KV.prevValues, KV.mk.injEq]
  refine ⟨funext fun addr => ?_, funext fun addr => funext fun key => ?_, funext fun hash => ?_⟩
  · cases sets.accounts addr <;> rfl
  · cases sets.storage addr key <;> rfl
  · cases sets.code hash <;> rfl

namespace CommitStateDB

variable (cfg : Config)

def withKV (s : CommitStateDB) (kv : KV) : CommitStateDB := { s with db := { s.db with kv := kv } }

/-- A change of the cached or stored object, which the code makes through a pointer it has
not checked. -/
def modifyObject (s : CommitStateDB) (addr : Address) (change : StateObject → StateObject) :
    Except Panic CommitStateDB :=
  match s.getStateObject cfg addr with
  | (some so, s) => .ok (s.setStateObject addr (change so))
  | (none, _) => .error .nilObject

end CommitStateDB

open CommitStateDB in
def JournalEntry.revert (cfg : Config) (s : CommitStateDB) :
    JournalEntry → Except Panic CommitStateDB
  | createObjectChange account => .ok { s with stateObjects := s.stateObjects.erase account }
  | resetObjectChange account prev => .ok (s.setStateObject account prev)
  | suicideChange account prev prevBalance =>
    match s.getStateObject cfg account with
    | (some so, s) =>
      .ok (s.setStateObject account ((so.setSuicided prev).setBalance prevBalance))
    | (none, s) => .ok s
  | touchChange _ => .ok s
  | balanceChange account prev => s.modifyObject cfg account (·.setBalance prev)
  | nonceChange account prev => s.modifyObject cfg account (·.setNonce prev)
  | codeChange account prevHash prevCode =>
    s.modifyObject cfg account (·.setCode prevHash prevCode)
  | storageChange account key prevValue => s.modifyObject cfg account (·.setState key prevValue)
  | refundChange prev => .ok { s with substate := { s.substate with refund := prev } }
  | addLogChange txhash =>
    .ok { s with substate := { s.substate with
      logs := Function.update s.substate.logs txhash (s.substate.logs txhash).dropLast
      logSize := s.substate.logSize - 1 } }
  | addPreimageChange hash =>
    .ok { s with substate := { s.substate with
      preimages := Function.update s.substate.preimages hash none } }
  | accessListAddAccountChange address =>
    .ok (s.withAccessList (s.substate.accessList.deleteAddress address))
  | accessListAddSlotChange address slot =>
    match s.substate.accessList.deleteSlot address slot with
    | some al => .ok (s.withAccessList al)
    | none => .error .slotNotPresent
  | cmChange sets => .ok (s.withKV (s.db.kv.write sets))

namespace CommitStateDB

variable (cfg : Config)

/-- Undoes the given entries one after another, with their dirty tracking. -/
def unwind : List JournalEntry → CommitStateDB → Except Panic CommitStateDB
  | [], s => .ok s
  | entry :: older, s => do
    let s ← entry.revert cfg s
    unwind older { s with journal := s.journal.undirty entry }

variable (s : CommitStateDB) (addr : Address)

/-- The journal's `revert`: undoes the entries above a length, then cuts the journal there. -/
def revertJournal (snapshot : Nat) : Except Panic CommitStateDB := do
  let count := s.journal.entries.length - snapshot
  let t ← unwind cfg (s.journal.entries.take count) s
  return { t with journal := { t.journal with entries := s.journal.entries.drop count } }

def snapshot : CommitStateDB :=
  { s with
    nextRevisionID := s.nextRevisionID + 1
    validRevisions := ⟨s.nextRevisionID, s.journal.entries.length⟩ :: s.validRevisions }

def revertToSnapshot (revID : Nat) : Except Panic CommitStateDB :=
  match Snapshots.find revID s.validRevisions with
  | none => .error .revisionCannotBeReverted
  | some (revision, older) => do
    let t ← s.revertJournal cfg revision.length
    return { t with validRevisions := older }

def clearJournalAndRefund : CommitStateDB :=
  let s := if s.journal.entries = [] then s
    else { s with journal := ⟨[], ∅⟩, substate := { s.substate with refund := 0 } }
  { s with validRevisions := [] }

def getBalance : Nat :=
  match (s.getStateObject cfg addr).1 with
  | some so => so.account.balance
  | none => 0

def getNonce : UInt64 :=
  match (s.getStateObject cfg addr).1 with
  | some so => so.account.sequence
  | none => 0

def getCodeHash : Hash :=
  match (s.getStateObject cfg addr).1 with
  | some so => so.codeHash cfg
  | none => 0

/-- The code of an account; no code and empty code are the same to a caller. -/
def getCode : Code := match (s.getStateObject cfg addr).1 with
  | some so => (so.getCode cfg s.db).1.getD []
  | none => []

def getState (key : Hash) : Hash :=
  match (s.getStateObject cfg addr).1 with
  | some so => (so.getState cfg s.db addr key).1
  | none => 0

def getCommittedState (key : Hash) : Hash :=
  match (s.getStateObject cfg addr).1 with
  | some so => (so.getCommittedState cfg s.db addr key).1
  | none => 0

def hasSuicided : Bool :=
  match (s.getStateObject cfg addr).1 with
  | some so => so.suicided
  | none => false

def exist : Bool := (s.getStateObject cfg addr).1.isSome

/-- What a getter leaves behind: the loaded object, and what the object has loaded. -/
def load (change : StateObject → StateObject) : CommitStateDB :=
  match s.getStateObject cfg addr with
  | (some so, s) => s.setStateObject addr (change so)
  | (none, s) => s

end CommitStateDB

/-- The operations of the state database. `getAccount` stands for the getters of the account alone:
balance, nonce, code hash, suicide mark, existence, emptiness. -/
inductive Op
  | setBalance (addr : Address) (amount : Int)
  | addBalance (addr : Address) (amount : Int)
  | subBalance (addr : Address) (amount : Int)
  | setNonce (addr : Address) (nonce : UInt64)
  | setState (addr : Address) (key value : Hash)
  | setCode (addr : Address) (code : Option Code)
  | createAccount (addr : Address)
  | suicide (addr : Address)
  | addLog (address : Address) (topics : List Hash) (data : List UInt8)
  | addPreimage (hash : Hash) (preimage : List UInt8)
  | addRefund (gas : UInt64)
  | subRefund (gas : UInt64)
  | addAddressToAccessList (addr : Address)
  | addSlotToAccessList (addr : Address) (slot : Hash)
  | getAccount (addr : Address)
  | getCode (addr : Address)
  | getState (addr : Address) (key : Hash)
  | getCommittedState (addr : Address) (key : Hash)
  | snapshot
  | revertToSnapshot (revID : Nat)

namespace CommitStateDB

variable (cfg : Config)

def step (s : CommitStateDB) : Op → Except Panic CommitStateDB
  | .setBalance addr amount => s.setBalance cfg addr amount
  | .addBalance addr amount => s.addBalance cfg addr amount
  | .subBalance addr amount => s.subBalance cfg addr amount
  | .setNonce addr nonce => .ok (s.setNonce cfg addr nonce)
  | .setState addr key value => .ok (s.setState cfg addr key value)
  | .setCode addr code => .ok (s.setCode cfg addr code)
  | .createAccount addr => .ok (s.createAccount cfg addr)
  | .suicide addr => .ok (s.suicide cfg addr)
  | .addLog address topics data => .ok (s.addLog address topics data)
  | .addPreimage hash preimage => .ok (s.addPreimage hash preimage)
  | .addRefund gas => .ok (s.addRefund gas)
  | .subRefund gas => s.subRefund gas
  | .addAddressToAccessList addr => .ok (s.addAddressToAccessList addr)
  | .addSlotToAccessList addr slot => .ok (s.addSlotToAccessList addr slot)
  | .getAccount addr => .ok (s.load cfg addr id)
  | .getCode addr => .ok (s.load cfg addr fun so => (so.getCode cfg s.db).2)
  | .getState addr key => .ok (s.load cfg addr fun so => (so.getState cfg s.db addr key).2)
  | .getCommittedState addr key =>
    .ok (s.load cfg addr fun so => (so.getCommittedState cfg s.db addr key).2)
  | .snapshot => .ok s.snapshot
  | .revertToSnapshot revID => s.revertToSnapshot cfg revID

def run (s : CommitStateDB) (ops : List Op) : Except Panic CommitStateDB :=
  PartialRun.run (step cfg) s ops

end CommitStateDB

end Exchain.Evm
