import Exchain.Evm.SnapshotRestore

namespace Exchain.Evm

open CommitStateDB

namespace StateObject

/-- The copy after Mars: a new account for the address, not the object's. -/
def deepCopyMpt (cfg : Config) (so : StateObject) : StateObject :=
  { so with account := (newAccountWithAddress cfg).withCodeHash cfg, code := some (so.code.getD []) }

/-- The copy that is written out: before Mars the account is decoded anew; the code is never
nil. -/
def deepCopy (cfg : Config) (so : StateObject) : StateObject :=
  if cfg.higherThanMars then so.deepCopyMpt cfg
  else { so with account := so.account.withCodeHash cfg, code := some (so.code.getD []) }

end StateObject

namespace SnapshotWSet

def none : SnapshotWSet := ⟨fun _ => .none, fun _ _ => .none, fun _ => .none⟩

/-- The writes for a dirty object: the account goes if the object is suicided or empty; otherwise
its slots and code are written, and the account unless blacklisted. -/
def addObject (cfg : Config) (sets : SnapshotWSet) (addr : Address) (so : StateObject) :
    SnapshotWSet :=
  let so := so.deepCopy cfg
  if so.suicided || so.empty cfg then
    { sets with accounts := Function.update sets.accounts addr (some .none) }
  else
    { accounts := if cfg.blacklistedAddr addr then sets.accounts
        else Function.update sets.accounts addr (some (some so.account))
      storage := Function.update sets.storage addr so.writtenSlots
      code := if so.dirtyCode then Function.update sets.code (so.codeHash cfg) (some so.code)
        else sets.code }

end SnapshotWSet

namespace CommitStateDB

variable (cfg : Config) (s : CommitStateDB)

/-- The writes of all dirty objects; a dirty address may have no object in the cache. -/
def dirtyWrites (order : List Address) : SnapshotWSet :=
  (s.journal.dirties.visit order).foldl
    (fun sets addr =>
      match s.stateObjects.lookup addr with
      | some so => sets.addObject cfg addr so
      | none => sets)
    .none

/-- Drops a cached object, with an entry that puts it back. -/
def dropObject (addr : Address) : CommitStateDB :=
  match s.stateObjects.lookup addr with
  | some prev =>
    { s.append (.resetObjectChange addr prev) with stateObjects := s.stateObjects.erase addr }
  | none => s

def clearObjects (order : List Address) : CommitStateDB :=
  (s.stateObjects.visit order).foldl dropObject s

/-- Writes to the store, with an entry for the values overwritten. -/
def cmChangeCommit (sets : SnapshotWSet) : CommitStateDB :=
  (s.withKV (s.db.kv.write sets)).append (.cmChange (s.db.kv.prevValues sets))

def protectStateDBEnvironment (dirtyOrder cacheOrder : List Address) : CommitStateDB :=
  (s.clearObjects cacheOrder).cmChangeCommit (s.dirtyWrites cfg dirtyOrder)

/-- A precompile call. What the wasm side writes is committed unless the call fails. -/
def callPrecompile (dirtyOrder cacheOrder : List Address)
    (writes : Option SnapshotWSet) : CommitStateDB :=
  let s := s.protectStateDBEnvironment cfg dirtyOrder cacheOrder
  match writes with
  | some sets => s.cmChangeCommit sets
  | none => s

end CommitStateDB

/-- The operations of the state database and the precompile calls between them. -/
inductive BridgeOp
  | op (op : Op)
  | callPrecompile (dirtyOrder cacheOrder : List Address) (writes : Option SnapshotWSet)

namespace CommitStateDB

variable (cfg : Config)

def bridgeStep (s : CommitStateDB) : BridgeOp → Except Panic CommitStateDB
  | .op op => s.step cfg op
  | .callPrecompile dirtyOrder cacheOrder writes =>
    .ok (s.callPrecompile cfg dirtyOrder cacheOrder writes)

def bridgeRun (s : CommitStateDB) (ops : List BridgeOp) : Except Panic CommitStateDB :=
  PartialRun.run (bridgeStep cfg) s ops

end CommitStateDB

theorem lookup_dropObject (s : CommitStateDB) (addr account : Address) :
    (s.dropObject addr).stateObjects.lookup account =
      if account = addr then none else s.stateObjects.lookup account := by
  unfold CommitStateDB.dropObject
  split
  · exact AList.lookup_erase_if _ _ _
  rename_i uncached
  split
  · rename_i same
    rw [same, uncached]
  · rfl

theorem lookup_dropAll (s : CommitStateDB) (addrs : List Address) (account : Address) :
    (addrs.foldl CommitStateDB.dropObject s).stateObjects.lookup account =
      if account ∈ addrs then none else s.stateObjects.lookup account := by
  induction addrs generalizing s with
  | nil => simp
  | cons addr rest ih =>
    rw [List.foldl_cons, ih, lookup_dropObject]
    by_cases later : account ∈ rest <;> by_cases same : account = addr <;> simp [later, same]

theorem lookup_protectStateDBEnvironment (cfg : Config) (s : CommitStateDB)
    (dirtyOrder cacheOrder : List Address) (account : Address) :
    (s.protectStateDBEnvironment cfg dirtyOrder cacheOrder).stateObjects.lookup account = none := by
  show (s.clearObjects cacheOrder).stateObjects.lookup account = none
  rw [clearObjects, lookup_dropAll]
  split
  · rfl
  rename_i unvisited
  rw [AList.mem_visit] at unvisited
  exact AList.lookup_eq_none.mpr unvisited

variable {cfg : Config} {base s t : CommitStateDB} {since : List JournalEntry}

/-- A precompile call is made of dropped objects and journaled writes to the store. -/
inductive Calls (s : CommitStateDB) : CommitStateDB → Prop
  | refl : Calls s s
  | dropObject {t : CommitStateDB} {addr : Address} {prev : StateObject} :
      Calls s t → t.stateObjects.lookup addr = some prev → Calls s
        { t.append (.resetObjectChange addr prev) with stateObjects := t.stateObjects.erase addr }
  | cmChangeCommit {t : CommitStateDB} (sets : SnapshotWSet) :
      Calls s t → Calls s (t.cmChangeCommit sets)

theorem Calls.drop (calls : Calls s t) (addr : Address) : Calls s (t.dropObject addr) := by
  unfold CommitStateDB.dropObject
  split
  · rename_i prev cached
    exact calls.dropObject cached
  · exact calls

theorem Calls.dropAll (calls : Calls s t) (addrs : List Address) :
    Calls s (addrs.foldl CommitStateDB.dropObject t) := by
  induction addrs generalizing t with
  | nil => exact calls
  | cons addr rest ih => exact ih (calls.drop addr)

theorem callPrecompile_calls (dirtyOrder cacheOrder : List Address)
    (writes : Option SnapshotWSet) : Calls s (s.callPrecompile cfg dirtyOrder cacheOrder writes) := by
  have protect : Calls s (s.protectStateDBEnvironment cfg dirtyOrder cacheOrder) :=
    (Calls.dropAll .refl _).cmChangeCommit _
  cases writes with
  | none => exact protect
  | some sets => exact protect.cmChangeCommit sets

theorem Calls.grows (calls : Calls s t) :
    (∃ newer, t.journal.entries = newer ++ s.journal.entries) ∧
      t.validRevisions = s.validRevisions ∧ t.nextRevisionID = s.nextRevisionID := by
  induction calls with
  | refl => exact ⟨⟨[], rfl⟩, rfl, rfl⟩
  | @dropObject t addr prev _ _ ih =>
    obtain ⟨⟨newer, grown⟩, valid, next⟩ := ih
    refine ⟨⟨.resetObjectChange addr prev :: newer, ?_⟩, valid, next⟩
    rw [List.cons_append, ← grown]
    exact Journal.entries_append t.journal _
  | @cmChangeCommit t sets _ ih =>
    obtain ⟨⟨newer, grown⟩, valid, next⟩ := ih
    refine ⟨⟨.cmChange (t.db.kv.prevValues sets) :: newer, ?_⟩, valid, next⟩
    rw [List.cons_append, ← grown]
    exact Journal.entries_append t.journal _

section

variable (anchored : Anchored cfg base since s) (unmarked : ∀ addr, s.updatedAccount addr = false)

include anchored unmarked

theorem Anchored.dropObject {addr : Address} {prev : StateObject}
    (cached : s.stateObjects.lookup addr = some prev) :
    Anchored cfg base (.resetObjectChange addr prev :: since)
      { s.append (.resetObjectChange addr prev) with stateObjects := s.stateObjects.erase addr } := by
  have cell : s.cell cfg addr = some (prev.settled cfg) := by
    simp [cell, cached, refreshed, unmarked]
  have replaces : (JournalEntry.resetObjectChange addr prev).replacement cfg =
      some (addr, s.cell cfg addr) := by
    rw [cell]
    rfl
  refine anchored.overwrite replaces ⟨by simp [JournalEntry.objectChange], by simp, ?_, by simp⟩
    (fun so inside kept => ⟨so, inside, kept⟩) rfl _ ?_ ⟨?_, ?_⟩
  · intro account other _ mark
    simp [unmarked] at mark
  · intro account different
    exact AList.lookup_erase_ne different
  · intro account mark
    exact anchored.steady.stored account mark
  · intro account mark
    exact absurd mark (by simp [append, unmarked])

/-- Undoing a journaled write to the store puts the overwritten values back. -/
theorem Anchored.cmChangeCommit (sets : SnapshotWSet) :
    Anchored cfg base (.cmChange (s.db.kv.prevValues sets) :: since) (s.cmChangeCommit sets) := by
  have cells : (s.cmChangeCommit sets).cell cfg = s.cell cfg := by
    funext addr
    simp [cell, refreshed, CommitStateDB.cmChangeCommit, append, withKV, unmarked]
  refine ⟨?_, ⟨⟨by simp [JournalEntry.objectChange], by simp, by simp, ?_⟩, ?_⟩, ?_, ?_, anchored.mpt,
    anchored.substate, ⟨?_, ?_⟩, anchored.marks⟩
  · show (s.journal.append _).entries = _
    rw [Journal.entries_append, anchored.entries]
    rfl
  · intro _ _ addr
    exact unmarked addr
  · rw [cells]
    exact anchored.live
  · intro addr
    rw [cells]
    exact anchored.views addr
  · show kvAfter since ((s.db.kv.write sets).write (s.db.kv.prevValues sets)) = _
    rw [KV.write_prevValues, anchored.kv]
  all_goals
    intro addr mark
    exact absurd mark (by simp [CommitStateDB.cmChangeCommit, append, withKV, unmarked])

end

theorem Calls.anchored (calls : Calls s t) (anchored : Anchored cfg base since s)
    (unmarked : ∀ addr, base.updatedAccount addr = false) : Continues cfg base since t := by
  have clear {since : List JournalEntry} {u : CommitStateDB} (anchored : Anchored cfg base since u)
      (addr : Address) : u.updatedAccount addr = false := by
    cases mark : u.updatedAccount addr with
    | false => rfl
    | true => exact (anchored.marks addr mark).symm.trans (unmarked addr)
  induction calls with
  | refl => exact ⟨[], anchored⟩
  | dropObject _ cached ih =>
    obtain ⟨newer, anchored⟩ := ih
    exact ⟨_ :: newer, anchored.dropObject (clear anchored) cached⟩
  | cmChangeCommit sets _ ih =>
    obtain ⟨newer, anchored⟩ := ih
    exact ⟨_ :: newer, anchored.cmChangeCommit (clear anchored) sets⟩

end Exchain.Evm
