import Exchain.Evm.Journal

/-! The end of a transaction. The dirty objects of the journal are finalised, then their slots,
accounts and code are written: before the Mars height to the key-value store, after it the slots to
the storage tries and the code to the raw database. The loops share one visiting order, which a
commit is given. -/

namespace Exchain.Evm

open Function

namespace StateObject

/-- The object after its slots were written: the written ones are known, none is pending. -/
def settleSlots (so : StateObject) : StateObject :=
  { so.finalise with
    originStorage := fun key => so.writtenSlots key <|> so.originStorage key
    pendingStorage := fun _ => none }

/-- Stored slots with the written ones laid over them; a slot that is zero is deleted. -/
def overlay (so : StateObject) (slots : Hash → Hash) (key : Hash) : Hash :=
  (so.writtenSlots key).getD (slots key)

def updateTrie (so : StateObject) : StateObject :=
  { so.settleSlots with trie := so.overlay so.trie }

end StateObject

namespace CommitStateDB

variable (cfg : Config)

variable (s : CommitStateDB) (addr : Address)

def mapObject (change : StateObject → StateObject) : CommitStateDB :=
  match s.stateObjects.lookup addr with
  | some so => s.setStateObject addr (change so)
  | none => s

def dirtyObjects (order : List Address) : List Address :=
  (s.journal.dirties.visit order).filter fun addr => (s.stateObjects.lookup addr).isSome

/-- A suicided or, on demand, an empty object is deleted; the others move their slots on. -/
def finaliseObject (deleteEmptyObjects : Bool) (so : StateObject) : StateObject :=
  if so.suicided || (deleteEmptyObjects && so.empty cfg) then { so with deleted := true }
  else so.finalise

def finalise (addrs : List Address) (deleteEmptyObjects : Bool) : CommitStateDB :=
  (addrs.foldl (fun s addr => s.mapObject addr (finaliseObject cfg deleteEmptyObjects)) s).clearJournalAndRefund

/-- Before Mars the slots go to the store, after it to the object's own trie. -/
def commitSlots : CommitStateDB :=
  match s.stateObjects.lookup addr with
  | some so =>
    if so.deleted then s
    else if cfg.higherThanMars then s.setStateObject addr so.updateTrie
    else (s.setStateObject addr so.settleSlots).withKV { s.db.kv with
      storage := update s.db.kv.storage addr (so.overlay (s.db.kv.storage addr)) }
  | none => s

/-- Removes a deleted account and stores any other one, unless it is blacklisted. -/
def commitAccount : CommitStateDB :=
  match s.stateObjects.lookup addr with
  | some so =>
    if so.deleted then
      s.withKV { s.db.kv with accounts := update s.db.kv.accounts addr none }
    else if cfg.blacklistedAddr addr then s
    else s.withKV { s.db.kv with accounts := update s.db.kv.accounts addr (some so.account) }
  | none => s

def intermediateRoot (addrs : List Address) (deleteEmptyObjects : Bool) : CommitStateDB :=
  let s := s.finalise cfg addrs deleteEmptyObjects
  let s := addrs.foldl (commitSlots cfg) s
  addrs.foldl (commitAccount cfg) s

def commitCode (so : StateObject) : CommitStateDB :=
  if so.code.isSome && so.dirtyCode then
    let s := s.setStateObject addr { so with dirtyCode := false }
    if cfg.higherThanMars then
      { s with db := { s.db with mpt := { s.db.mpt with
        code := update s.db.mpt.code (so.codeHash cfg) so.code } } }
    else s.withKV { s.db.kv with code := update s.db.kv.code (so.codeHash cfg) so.code }
  else s

def withStorageTrie (trie : Hash → Hash) : CommitStateDB :=
  { s with db := { s.db with mpt := { s.db.mpt with
    storageTries := update s.db.mpt.storageTries addr trie } } }

/-- The storage root of an account without code is not recorded. -/
def updateAccountStorageInfo (so : StateObject) : CommitStateDB :=
  if so.codeHash cfg = cfg.emptyCodeHash then s else s.withStorageTrie addr so.trie

def commitObject : CommitStateDB :=
  match s.stateObjects.lookup addr with
  | some so =>
    if so.deleted then
      if cfg.higherThanMars then s.withStorageTrie addr emptyTrie else s
    else
      let s := s.commitCode cfg addr so
      if cfg.higherThanMars then s.updateAccountStorageInfo cfg addr so else s
  | none => s

def commit (order : List Address) (deleteEmptyObjects : Bool) : CommitStateDB :=
  let addrs := s.dirtyObjects order
  addrs.foldl (commitObject cfg) (s.intermediateRoot cfg addrs deleteEmptyObjects)

end CommitStateDB

end Exchain.Evm
