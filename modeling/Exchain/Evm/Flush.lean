import Exchain.Evm.Coherence

/-! The flush before a precompile call. Before the Mars height it writes every dirty object that is
not empty as the getters show it; after it the copies written out have new accounts, so are empty,
and every dirty account is removed. -/

namespace Exchain.Evm

open CommitStateDB StateObject List

/-- The object that a flush writes out for an address, if any. -/
def CommitStateDB.flushed (s : CommitStateDB) (addr : Address) : Option StateObject :=
  if addr ∈ s.journal.dirties then s.stateObjects.lookup addr else none

/-- The copy is suicided or empty, and the account is removed. -/
def StateObject.removes (cfg : Config) (so : StateObject) : Bool :=
  (so.deepCopy cfg).suicided || (so.deepCopy cfg).empty cfg

def StateObject.accountWrite (cfg : Config) (addr : Address) (so : StateObject) :
    Option (Option Account) :=
  if so.removes cfg then some none
  else if cfg.blacklistedAddr addr then none else some (some (so.deepCopy cfg).account)

section

variable {cfg : Config} (s : CommitStateDB)

/-- The writes of the objects at a list of addresses, over earlier writes. -/
def CommitStateDB.writesOf (cfg : Config) (sets : SnapshotWSet) (addrs : List Address) : SnapshotWSet :=
  addrs.foldl (fun sets addr => match s.stateObjects.lookup addr with
    | some so => sets.addObject cfg addr so
    | none => sets) sets

@[simp] theorem dirtyCode_deepCopy (so : StateObject) : (so.deepCopy cfg).dirtyCode = so.dirtyCode := by
  unfold deepCopy deepCopyMpt
  split <;> rfl

@[simp] theorem code_deepCopy (so : StateObject) : (so.deepCopy cfg).code = some (so.code.getD []) := by
  unfold deepCopy deepCopyMpt
  split <;> rfl

variable (sets : SnapshotWSet)

theorem accounts_addObject (addr other : Address) (so : StateObject) :
    (sets.addObject cfg addr so).accounts other =
      if other = addr then (so.accountWrite cfg addr).or (sets.accounts addr)
      else sets.accounts other := by
  unfold SnapshotWSet.addObject accountWrite removes
  cases gone : (so.deepCopy cfg).suicided || (so.deepCopy cfg).empty cfg with
  | true => by_cases same : other = addr <;> simp [gone, same]
  | false =>
    by_cases same : other = addr <;> cases listed : cfg.blacklistedAddr addr <;>
      simp [gone, same]

theorem storage_addObject (addr other : Address) (so : StateObject) :
    (sets.addObject cfg addr so).storage other =
      if other = addr ∧ so.removes cfg = false then (so.deepCopy cfg).writtenSlots
      else sets.storage other := by
  unfold SnapshotWSet.addObject removes
  cases gone : (so.deepCopy cfg).suicided || (so.deepCopy cfg).empty cfg with
  | true => simp [gone]
  | false => by_cases same : other = addr <;> simp [gone, same]

theorem code_addObject (addr : Address) (so : StateObject) (hash : Hash) :
    (sets.addObject cfg addr so).code hash =
      if so.removes cfg = false ∧ so.dirtyCode = true ∧ hash = (so.deepCopy cfg).codeHash cfg then
        some (some (so.code.getD [])) else sets.code hash := by
  unfold SnapshotWSet.addObject removes
  cases gone : (so.deepCopy cfg).suicided || (so.deepCopy cfg).empty cfg with
  | true => simp [gone]
  | false =>
    by_cases same : hash = (so.deepCopy cfg).codeHash cfg <;> cases changed : so.dirtyCode <;>
      simp [gone, same, changed]

variable {addrs : List Address}

theorem accounts_writesOf (cfg : Config) (nodup : addrs.Nodup) (sets : SnapshotWSet)
    (addr : Address) : (s.writesOf cfg sets addrs).accounts addr =
      ((if addr ∈ addrs then s.stateObjects.lookup addr else none).bind
        (·.accountWrite cfg addr)).or (sets.accounts addr) := by
  refine (AList.foldl_keys SnapshotWSet.accounts
    (fun addr old => ((s.stateObjects.lookup addr).bind (·.accountWrite cfg addr)).or old)
    (fun sets a other => ?_) nodup sets addr).trans ?_
  · by_cases same : other = a
    · subst same
      cases cached : s.stateObjects.lookup other <;> simp [accounts_addObject]
    · cases s.stateObjects.lookup a <;> simp [same, accounts_addObject]
  · split <;> rfl

theorem storage_writesOf (cfg : Config) (nodup : addrs.Nodup) (sets : SnapshotWSet)
    (addr : Address) : (s.writesOf cfg sets addrs).storage addr =
      match if addr ∈ addrs then s.stateObjects.lookup addr else none with
      | some so => if so.removes cfg then sets.storage addr else (so.deepCopy cfg).writtenSlots
      | none => sets.storage addr := by
  refine (AList.foldl_keys SnapshotWSet.storage (fun addr old => match s.stateObjects.lookup addr with
    | some so => if so.removes cfg then old else (so.deepCopy cfg).writtenSlots
    | none => old) (fun sets a other => ?_) nodup sets addr).trans ?_
  · by_cases same : other = a
    · subst same
      cases cached : s.stateObjects.lookup other with
      | none => simp
      | some so => cases gone : so.removes cfg <;> simp [storage_addObject, gone]
    · cases s.stateObjects.lookup a <;> simp [same, storage_addObject]
  · split <;> rfl

theorem code_writesOf {sets : SnapshotWSet} {hash : Hash} {value : Option Code}
    (written : (s.writesOf cfg sets addrs).code hash = some value) :
    sets.code hash = some value ∨ ∃ addr ∈ addrs, ∃ so, s.stateObjects.lookup addr = some so ∧
      so.dirtyCode = true ∧ hash = (so.deepCopy cfg).codeHash cfg ∧ value = some (so.code.getD []) ∧
      so.removes cfg = false := by
  induction addrs generalizing sets with
  | nil => exact .inl written
  | cons first rest ih =>
    rw [writesOf, foldl_cons] at written
    rcases ih written with earlier | ⟨addr, inside, found⟩
    · cases cached : s.stateObjects.lookup first with
      | none =>
        rw [cached] at earlier
        exact .inl earlier
      | some so =>
        rw [cached] at earlier
        simp only [code_addObject] at earlier
        split at earlier
        · rename_i own
          exact .inr ⟨first, mem_cons_self, so, cached, own.2.1, own.2.2,
            (Option.some.inj earlier).symm, own.1⟩
        · exact .inl earlier
    · exact .inr ⟨addr, mem_cons_of_mem _ inside, found⟩

theorem isSome_code_writesOf (cfg : Config) (sets : SnapshotWSet) {hash : Hash}
    (given : (sets.code hash).isSome = true ∨ ∃ addr ∈ addrs, ∃ so,
      s.stateObjects.lookup addr = some so ∧ so.removes cfg = false ∧ so.dirtyCode = true ∧
      hash = (so.deepCopy cfg).codeHash cfg) :
    ((s.writesOf cfg sets addrs).code hash).isSome = true := by
  induction addrs generalizing sets with
  | nil => simpa [writesOf] using given
  | cons first rest ih =>
    rw [writesOf, foldl_cons]
    refine ih _ ?_
    cases cached : s.stateObjects.lookup first with
    | none =>
      refine given.imp_right ?_
      rintro ⟨addr, inside, so, found, kept⟩
      rcases mem_cons.mp inside with rfl | later
      · simp [cached] at found
      · exact ⟨addr, later, so, found, kept⟩
    | some so =>
      simp only [code_addObject]
      by_cases own : so.removes cfg = false ∧ so.dirtyCode = true ∧
          hash = (so.deepCopy cfg).codeHash cfg
      · exact .inl (by simp [own])
      rw [if_neg own]
      refine given.imp_right ?_
      rintro ⟨addr, inside, other, found, kept⟩
      rcases mem_cons.mp inside with rfl | later
      · cases cached.symm.trans found
        exact absurd kept own
      · exact ⟨addr, later, other, found, kept⟩

end

variable {cfg : Config} {s : CommitStateDB} {dirtyOrder cacheOrder : List Address}

theorem db_clearObjects (order : List Address) : (s.clearObjects order).db = s.db := by
  unfold CommitStateDB.clearObjects
  generalize s.stateObjects.visit order = addrs
  induction addrs generalizing s with
  | nil => rfl
  | cons _ _ ih =>
    rw [foldl_cons, ih]
    unfold CommitStateDB.dropObject
    split <;> rfl

theorem flushed_eq (order : List Address) (addr : Address) :
    (if addr ∈ s.journal.dirties.visit order then s.stateObjects.lookup addr else none) =
      s.flushed addr := by
  simp only [flushed, AList.mem_visit]

section

variable {t : CommitStateDB} (flush : t = s.protectStateDBEnvironment cfg dirtyOrder cacheOrder)
  (addr : Address)

include flush

theorem db_flush : t.db =
    { s.db with kv := s.db.kv.write (s.writesOf cfg .none (s.journal.dirties.visit dirtyOrder)) } := by
  rw [flush]
  show { (s.clearObjects cacheOrder).db with
    kv := (s.clearObjects cacheOrder).db.kv.write (s.dirtyWrites cfg dirtyOrder) } = _
  rw [db_clearObjects]
  rfl

theorem accounts_flush : t.db.kv.accounts addr =
    ((s.flushed addr).bind (·.accountWrite cfg addr)).getD (s.db.kv.accounts addr) := by
  have written := accounts_writesOf s cfg (s.journal.dirties.visit_nodup dirtyOrder) .none addr
  rw [flushed_eq] at written
  simp only [db_flush flush, KV.write, written]
  simp [SnapshotWSet.none]

theorem storage_flush (key : Hash) : t.db.kv.storage addr key =
      match s.flushed addr with
      | some so =>
        if so.removes cfg then s.db.kv.storage addr key
        else ((so.deepCopy cfg).writtenSlots key).getD (s.db.kv.storage addr key)
      | none => s.db.kv.storage addr key := by
  have written := storage_writesOf s cfg (s.journal.dirties.visit_nodup dirtyOrder) .none addr
  rw [flushed_eq] at written
  simp only [db_flush flush, KV.write, written]
  cases s.flushed addr with
  | none => rfl
  | some so => cases gone : so.removes cfg <;> simp [SnapshotWSet.none, gone]

end

theorem codeHash_deepCopy (kv : cfg.higherThanMars = false) (so : StateObject) :
    (so.deepCopy cfg).codeHash cfg = so.codeHash cfg := by
  simp [deepCopy, kv, codeHash, Account.withCodeHash]

theorem flushed_eq_some {addr : Address} {so : StateObject} (out : s.flushed addr = some so) :
    addr ∈ s.journal.dirties ∧ s.stateObjects.lookup addr = some so := by
  unfold flushed at out
  split at out
  · rename_i dirty
    exact ⟨dirty, out⟩
  · contradiction

theorem accountWrite_eq_some {addr : Address} {so : StateObject} {account : Account}
    (written : so.accountWrite cfg addr = some (some account)) :
    so.removes cfg = false ∧ account = (so.deepCopy cfg).account := by
  unfold accountWrite at written
  split at written
  · simp at written
  rename_i kept
  split at written
  · contradiction
  exact ⟨by simpa using kept, (Option.some.inj (Option.some.inj written)).symm⟩

theorem coded_flush {codes : Set Code} {start : Db} {entries : List JournalEntry}
    (coherent : Coherent cfg codes start entries s) (coded : start.kv.Coded cfg codes)
    (kv : cfg.higherThanMars = false) {t : CommitStateDB}
    (flush : t = s.protectStateDBEnvironment cfg dirtyOrder cacheOrder) : t.db.kv.Coded cfg codes := by
  obtain ⟨writes, writesAre⟩ : ∃ writes, writes = s.writesOf cfg .none (s.journal.dirties.visit dirtyOrder) :=
    ⟨_, rfl⟩
  have code (hash : Hash) : t.db.kv.code hash = (writes.code hash).getD (start.kv.code hash) := by
    rw [db_flush flush, coherent.db, writesAre]
    rfl
  have source {hash : Hash} {value : Option Code} (written : writes.code hash = some value) :
      ∃ code ∈ codes, value = some code ∧ cfg.keccak code = hash := by
    rw [writesAre] at written
    rcases code_writesOf s written with before | ⟨addr, -, so, cached, changed, rfl, rfl, -⟩
    · contradiction
    · have sourced := (coherent.objects addr so cached).changed changed
      exact ⟨_, sourced.1, rfl, by rw [codeHash_deepCopy kv]; exact sourced.2⟩
  have more {hash : Hash} (stored : (start.kv.code hash).isSome = true) :
      (t.db.kv.code hash).isSome = true := by
    rw [code]
    cases written : writes.code hash with
    | none => exact stored
    | some =>
      obtain ⟨_, -, rfl, -⟩ := source written
      rfl
  refine ⟨fun hash found stored => ?_, fun addr account stored => ?_⟩
  · rw [code] at stored
    cases written : writes.code hash with
    | none =>
      rw [written] at stored
      exact coded.hashed hash found stored
    | some =>
      obtain ⟨_, known, rfl, hashes⟩ := source written
      rw [written] at stored
      rw [← Option.some.inj stored]
      exact ⟨known, hashes⟩
  rw [accounts_flush flush, coherent.db] at stored
  cases flushed : (s.flushed addr).bind (·.accountWrite cfg addr) with
  | none =>
    rw [flushed] at stored
    exact (coded.stored addr account stored).imp_right more
  | some write =>
    obtain ⟨so, out, written⟩ := Option.bind_eq_some_iff.mp flushed
    rw [flushed] at stored
    have write_eq : write = some account := stored
    obtain ⟨kept, rfl⟩ := accountWrite_eq_some (written.trans (congrArg some write_eq))
    obtain ⟨_, cached⟩ := flushed_eq_some out
    have hash := codeHash_deepCopy kv so
    rw [codeHash] at hash
    rw [hash]
    cases changed : so.dirtyCode with
    | false => exact ((coherent.objects addr so cached).stored changed).imp_right more
    | true =>
      refine .inr ?_
      have inside : addr ∈ s.journal.dirties.visit dirtyOrder := by rwa [AList.mem_visit]
      have written := isSome_code_writesOf s cfg .none
        (.inr ⟨addr, inside, so, cached, kept, changed, (codeHash_deepCopy kv so).symm⟩)
      rw [← writesAre] at written
      obtain ⟨_, found⟩ := Option.isSome_iff_exists.mp written
      obtain ⟨_, -, rfl, -⟩ := source found
      rw [code, found]
      rfl

end Exchain.Evm
