import Exchain.Evm.JournalRevert

namespace Exchain.Evm

open CommitStateDB

structure SameAccounts (cfg : Config) (s t : CommitStateDB) : Prop where
  getBalance : ∀ addr, t.getBalance cfg addr = s.getBalance cfg addr
  getNonce : ∀ addr, t.getNonce cfg addr = s.getNonce cfg addr
  getCode : ∀ addr, t.getCode cfg addr = s.getCode cfg addr
  getCodeHash : ∀ addr, t.getCodeHash cfg addr = s.getCodeHash cfg addr
  getState : ∀ addr key, t.getState cfg addr key = s.getState cfg addr key
  hasSuicided : ∀ addr, t.hasSuicided cfg addr = s.hasSuicided cfg addr
  exist : ∀ addr, t.exist cfg addr = s.exist cfg addr

structure SameObservables (cfg : Config) (s t : CommitStateDB) : Prop extends
    SameAccounts cfg s t where
  getRefund : t.substate.refund = s.substate.refund
  getLogs : ∀ hash, t.substate.logs hash = s.substate.logs hash
  getLogSize : t.substate.logSize = s.substate.logSize
  preimages : ∀ hash, t.substate.preimages hash = s.substate.preimages hash
  addressInAccessList : ∀ addr,
    t.substate.accessList.containsAddress addr = s.substate.accessList.containsAddress addr
  slotInAccessList : ∀ addr slot,
    t.substate.accessList.contains addr slot = s.substate.accessList.contains addr slot

section

variable {cfg : Config} {accounts : Address → Option Account} {base s t : CommitStateDB}

theorem getStateObject_view (steady : Steady accounts s) (addr : Address) :
    (s.getStateObject cfg addr).1.map (·.view cfg s.db addr) =
      viewAt cfg s.db addr (s.cell cfg addr) := by
  cases cached : s.cell cfg addr with
  | some so =>
    obtain ⟨_, _, got, -, -, -, -, ⟨gone, rfl⟩ | ⟨kept, raw, rfl, rfl⟩⟩ :=
      getStateObject_cached steady cached
    · simp [got, viewAt, gone]
    · have kept : raw.deleted = false := kept
      simp [got, viewAt, kept]
  | none =>
    rw [getStateObject_uncached cached]
    cases stored : s.db.kv.accounts addr <;> simp [viewAt, stored]

theorem sameAccounts_of_views (before : Steady accounts s) {others : Address → Option Account}
    (after : Steady others t) (views : ∀ addr, viewAt cfg t.db addr (t.cell cfg addr) =
      viewAt cfg s.db addr (s.cell cfg addr)) : SameAccounts cfg s t := by
  have same (addr : Address) : (t.getStateObject cfg addr).1.map (·.view cfg t.db addr) =
      (s.getStateObject cfg addr).1.map (·.view cfg s.db addr) := by
    rw [getStateObject_view after, getStateObject_view before, views]
  refine ⟨fun addr => ?_, fun addr => ?_, fun addr => ?_, fun addr => ?_, fun addr key => ?_,
    fun addr => ?_, fun addr => ?_⟩
  all_goals
    have same := same addr
    revert same
    simp only [getBalance, getNonce, getCode, getCodeHash, getState, hasSuicided, exist,
      StateObject.getCode_fst, StateObject.getState_fst]
    cases (t.getStateObject cfg addr).1 <;> cases (s.getStateObject cfg addr).1 <;>
      simp only [Option.map_none, Option.map_some, reduceCtorEq, false_implies, Option.some.injEq,
        implies_true, Option.isSome_some, Option.isSome_none]
    try intro same
  · exact congrArg View.balance same
  · exact congrArg View.nonce same
  · exact congrArg View.code same
  · exact congrArg View.codeHash same
  · exact congrFun (congrArg View.storage same) key
  · exact congrArg View.suicided same

theorem Anchored.sameObservables (anchored : Anchored cfg base [] s)
    (steady : Steady base.db.kv.accounts base) : SameObservables cfg base s := by
  have db : s.db = base.db := Db.ext anchored.kv anchored.mpt
  have substate : s.substate = base.substate := Option.some.inj anchored.substate
  have views (addr : Address) : viewAt cfg s.db addr (s.cell cfg addr) =
      viewAt cfg base.db addr (base.cell cfg addr) := by
    rw [db]
    exact anchored.views addr
  refine ⟨sameAccounts_of_views steady anchored.steady views, ?_, ?_, ?_, ?_, ?_, ?_⟩
  all_goals simp [substate]

end

section

variable {cfg : Config} {base s t : CommitStateDB}

theorem Anchored.step {since : List JournalEntry} (anchored : Anchored cfg base since s)
    (unhidden : Unhidden cfg base) {op : Op} (plain : op.plain = true)
    (faithful : ReadsFaithfully cfg base since s op) (done : s.step cfg op = .ok t) :
    Continues cfg base since t := by
  cases op with
  | setBalance => exact anchored.setBalance unhidden faithful done
  | addBalance => exact anchored.addBalance unhidden faithful done
  | subBalance => exact anchored.subBalance unhidden faithful done
  | subRefund gas => exact anchored.subRefund done
  | snapshot | revertToSnapshot revID => simp [Op.plain] at plain
  | setNonce addr nonce =>
    cases done
    exact anchored.setNonce unhidden faithful nonce
  | setState =>
    cases done
    exact anchored.setState unhidden faithful.1 faithful.2
  | setCode =>
    cases done
    exact anchored.setCode unhidden faithful.1 faithful.2
  | createAccount addr =>
    cases done
    exact anchored.createAccount unhidden faithful
  | suicide addr =>
    cases done
    exact anchored.suicide faithful
  | addLog address topics data =>
    cases done
    exact anchored.addLog address topics data
  | addPreimage hash preimage =>
    cases done
    exact anchored.addPreimage hash preimage
  | addRefund gas =>
    cases done
    exact anchored.addRefund gas
  | addAddressToAccessList addr =>
    cases done
    exact anchored.addAddressToAccessList addr
  | addSlotToAccessList addr slot =>
    cases done
    exact anchored.addSlotToAccessList addr slot
  | getAccount addr =>
    cases done
    exact anchored.get faithful (fun _ => ⟨rfl, rfl⟩) fun _ so _ => .refl so
  | getCode addr =>
    cases done
    refine anchored.get faithful.1 (fun so => ?_) fun exposed so found =>
      StateObject.alike_getCode (faithful.2 exposed so found)
    obtain ⟨_, read⟩ := so.getCode_eq cfg s.db
    rw [read]
    exact ⟨rfl, rfl⟩
  | getState addr key =>
    cases done
    refine anchored.get faithful.1 (fun so => ?_) fun exposed so found =>
      StateObject.alike_getState (faithful.2 exposed so found)
    obtain ⟨_, read⟩ := so.getState_eq cfg s.db addr key
    rw [read]
    exact ⟨rfl, rfl⟩
  | getCommittedState addr key =>
    cases done
    refine anchored.get faithful.1 (fun so => ?_) fun exposed so found =>
      StateObject.alike_getCommittedState (faithful.2 exposed so found)
    obtain ⟨_, read⟩ := so.getCommittedState_eq cfg s.db addr key
    rw [read]
    exact ⟨rfl, rfl⟩

theorem Tracks.step (tracks : Tracks cfg base s) (unhidden : Unhidden cfg base) {op : Op}
    (faithful : base.revision ∈ s.validRevisions → ReadsFaithfully cfg base (s.since base) s op)
    (done : s.step cfg op = .ok t) : Tracks cfg base t := by
  cases plain : op.plain with
  | true =>
    have grows := (step_moves plain done).grows
    refine tracks.grow grows.entries grows.validRevisions grows.nextRevisionID
      fun valid since anchored => anchored.step unhidden plain ?_ done
    rw [← anchored.since_eq]
    exact faithful valid
  | false =>
    cases op with
    | snapshot =>
      cases done
      exact tracks.snapshot
    | revertToSnapshot => exact tracks.revertToSnapshot done
    | _ => simp [Op.plain] at plain

end

/-- A state that operations reach from one with a cleared journal and any cached objects, marks,
substate and stores. -/
def Reached (cfg : Config) (s : CommitStateDB) : Prop :=
  ∃ start before, (clearJournalAndRefund start).run cfg before = .ok s

/-- Cached objects and marks agree with the stored accounts: a deleted object's account is not
stored, and an account marked as updated is, unless its object is deleted. -/
structure Restorable (s : CommitStateDB) : Prop where
  deleted : ∀ addr so, s.stateObjects.lookup addr = some so → so.deleted = true →
    s.db.kv.accounts addr = none
  marked : ∀ addr, s.updatedAccount addr = true → s.db.kv.accounts addr = none →
    ∃ so, s.stateObjects.lookup addr = some so ∧ so.deleted = true

/-- Whatever happens after the snapshot, going back to it while it is valid does not panic and
restores every observable. -/
def RevertRestores (cfg : Config) (s : CommitStateDB) : Prop :=
  ∀ ops t, s.snapshot.run cfg ops = .ok t → s.revision ∈ t.validRevisions →
    ∃ u, t.revertToSnapshot cfg s.nextRevisionID = .ok u ∧ SameObservables cfg s u

section

variable {cfg : Config} {base s t : CommitStateDB}

structure Orderly (s : CommitStateDB) : Prop where
  stacked : s.Stacked
  bridgeless : ∀ sets, .cmChange sets ∉ s.journal.entries

theorem Orderly.step (orderly : Orderly s) {op : Op} (done : s.step cfg op = .ok t) : Orderly t :=
  ⟨stacked_step orderly.stacked done, fun sets inside =>
    orderly.bridgeless sets (bridge_step done inside)⟩

theorem Reached.orderly (reached : Reached cfg s) : Orderly s := by
  obtain ⟨start, _, done⟩ := reached
  refine PartialRun.run_keeps Orderly (fun _ _ _ orderly done => orderly.step done) ?_ done
  have entries : (clearJournalAndRefund start).journal.entries = [] := by
    unfold clearJournalAndRefund
    split <;> simp_all
  exact ⟨Snapshots.stacked_nil _ _, by simp [entries]⟩

theorem Restorable.steady (restorable : Restorable s) : Steady s.db.kv.accounts s :=
  ⟨fun _ _ => rfl, restorable.marked⟩

theorem Restorable.unhidden (restorable : Restorable s) : Unhidden cfg s := by
  intro addr hidden
  cases cached : s.cell cfg addr with
  | none => simpa [viewAt, cached] using hidden
  | some so =>
    obtain ⟨raw, looked, rfl⟩ := cell_eq_some cached
    rw [cached] at hidden
    have gone : raw.deleted = true := by
      by_contra kept
      simp [viewAt, kept] at hidden
    exact restorable.deleted addr raw looked gone

theorem kvAfter_of_bridgeless {entries : List JournalEntry}
    (bridgeless : ∀ sets, .cmChange sets ∉ entries) (kv : KV) : kvAfter entries kv = kv := by
  induction entries generalizing kv with
  | nil => rfl
  | cons entry older ih =>
    have same : entry.undoKV kv = kv := by
      cases entry with
      | cmChange sets => exact absurd List.mem_cons_self (bridgeless sets)
      | _ => rfl
    show kvAfter older (entry.undoKV kv) = kv
    rw [same, ih fun sets inside => bridgeless sets (List.mem_cons_of_mem _ inside)]

theorem readsFaithfully_of_db (same : s.db = base.db) (since : List JournalEntry) (op : Op) :
    ReadsFaithfully cfg base since s op := by
  have loads (addr : Address) : LoadsFaithfully cfg base since s addr := by
    intro _ _ account stored
    rwa [← same]
  cases op with
  | setBalance | addBalance | subBalance | setNonce | createAccount | suicide | getAccount =>
    exact loads _
  | setState | getState | getCommittedState => exact ⟨loads _, fun _ so _ => by rw [same]⟩
  | setCode | getCode => exact ⟨loads _, fun _ so _ => .inl (by rw [same])⟩
  | _ => trivial

theorem run_tracks (unhidden : Unhidden cfg base) {ops : List Op} (tracks : Tracks cfg base s)
    (orderly : Orderly s) (done : s.run cfg ops = .ok t) : Tracks cfg base t := by
  refine (PartialRun.run_keeps (fun s => Tracks cfg base s ∧ Orderly s) ?_ ⟨tracks, orderly⟩ done).1
  rintro s t op ⟨tracks, orderly⟩ done
  refine ⟨tracks.step unhidden (fun valid => ?_) done, orderly.step done⟩
  obtain ⟨_, anchored⟩ := tracks.anchored valid
  refine readsFaithfully_of_db (Db.ext ?_ anchored.mpt) _ op
  rw [← anchored.kv, kvAfter_of_bridgeless]
  intro sets inside
  refine orderly.bridgeless sets ?_
  rw [anchored.entries]
  exact List.mem_append_left _ inside

theorem revertRestores_of_restorable (reached : Reached cfg s) (restorable : Restorable s) :
    RevertRestores cfg s := by
  intro ops t done valid
  have orderly := reached.orderly
  have after : Orderly s.snapshot := ⟨Snapshots.Stacked.push orderly.stacked, orderly.bridgeless⟩
  have tracks := run_tracks restorable.unhidden
    (Tracks.start orderly.stacked restorable.steady) after done
  obtain ⟨u, reverted, anchored⟩ := tracks.revert valid
  exact ⟨u, reverted, anchored.sameObservables restorable.steady⟩

theorem exist_eq (s : CommitStateDB) (addr : Address) : s.exist cfg addr =
      match s.stateObjects.lookup addr with
      | some so => !so.deleted && (!s.updatedAccount addr || (s.db.kv.accounts addr).isSome)
      | none => (s.db.kv.accounts addr).isSome := by
  cases cached : s.stateObjects.lookup addr with
  | some so =>
    cases mark : s.updatedAccount addr <;> cases stored : s.db.kv.accounts addr <;>
      cases gone : so.deleted <;>
      simp [exist, getStateObject, getDeletedStateObject, updateAccInfo, cached, mark, stored, gone]
  | none =>
    cases stored : s.db.kv.accounts addr <;>
      simp [exist, getStateObject, getDeletedStateObject, cached, stored, loadObject, newStateObject]

theorem RevertRestores.after_step (restores : RevertRestores cfg s) {op : Op}
    {newer : List JournalEntry} (done : s.snapshot.step cfg op = .ok t)
    (entries : t.journal.entries = newer ++ s.journal.entries)
    (revisions : t.validRevisions = s.snapshot.validRevisions) :
    ∃ u, unwind cfg newer t = .ok u ∧ ∀ addr, u.exist cfg addr = s.exist cfg addr := by
  have ran : s.snapshot.run cfg [op] = .ok t := by
    simp [run, PartialRun.run_cons, done, bind, Except.bind]
  obtain ⟨_, reverted, same⟩ := restores [op] t ran (by simp [revisions, snapshot, revision])
  obtain ⟨_, _, v, search, unwound, rfl⟩ := revertToSnapshot_eq_ok reverted
  simp only [revisions, snapshot, Snapshots.find, Nat.lt_irrefl, if_false, if_true, Option.some.injEq,
    Prod.mk.injEq] at search
  obtain ⟨rfl, rfl⟩ := search
  have newest : t.journal.entries.take (t.journal.entries.length - s.journal.entries.length) =
      newer := by
    simp [entries]
  rw [newest] at unwound
  refine ⟨v, unwound, fun addr => ?_⟩
  have kept := same.exist addr
  rwa [exist_eq] at kept ⊢

/-- A stored account behind a deleted object comes to light: creating the account anew and going
back takes the object out of the cache. -/
theorem RevertRestores.deleted (restores : RevertRestores cfg s) (addr : Address) (so : StateObject)
    (cached : s.stateObjects.lookup addr = some so) (gone : so.deleted = true) :
    s.db.kv.accounts addr = none := by
  by_contra stored
  obtain ⟨_, stored⟩ := Option.ne_none_iff_exists'.mp stored
  obtain ⟨w, got, db, journal, revisions⟩ : ∃ w, s.snapshot.getStateObject cfg addr = (none, w) ∧
      w.db = s.db ∧ w.journal = s.journal ∧ w.validRevisions = s.snapshot.validRevisions := by
    cases mark : s.updatedAccount addr <;>
      simp [getStateObject, getDeletedStateObject, snapshot, cached, mark, updateAccInfo, stored, gone,
        setStateObject]
  have done : s.snapshot.step cfg (.createAccount addr) = .ok
      ((w.append (.createObjectChange addr)).setStateObject addr (freshObject cfg)) := by
    simp [step, createAccount, createObject, got]
  have entries : ((w.append (.createObjectChange addr)).setStateObject addr
      (freshObject cfg)).journal.entries = [.createObjectChange addr] ++ s.journal.entries := by
    simp [setStateObject, append, journal]
  obtain ⟨_, unwound, same⟩ := restores.after_step done entries revisions
  cases unwound
  have after := same addr
  rw [exist_eq, exist_eq] at after
  simp [setStateObject, append, db, stored, cached, gone] at after

/-- A mark on an account that is not stored breaks the undo of its first change, or hides an object
from one access. -/
theorem RevertRestores.marked (restores : RevertRestores cfg s) (addr : Address)
    (mark : s.updatedAccount addr = true) (absent : s.db.kv.accounts addr = none) :
    ∃ so, s.stateObjects.lookup addr = some so ∧ so.deleted = true := by
  cases cached : s.stateObjects.lookup addr with
  | none =>
    -- the new object is found marked when its nonce is to be set back
    let created := (s.snapshot.append (.createObjectChange addr)).setStateObject addr (freshObject cfg)
    let t := (created.append (.nonceChange addr 0)).setStateObject addr ((freshObject cfg).setNonce 1)
    have done : s.snapshot.step cfg (.setNonce addr 1) = .ok t := by
      simp [step, setNonce, getOrNewStateObject, createObject, getStateObject,
        getDeletedStateObject, snapshot, cached, absent, t, created]
      rfl
    have entries : t.journal.entries =
        [.nonceChange addr 0, .createObjectChange addr] ++ s.journal.entries := by
      simp [t, created, setStateObject, append, snapshot]
    obtain ⟨_, unwound, -⟩ := restores.after_step done entries rfl
    simp [unwind, JournalEntry.revert, modifyObject, getStateObject, getDeletedStateObject, t, created,
      setStateObject, append, snapshot, mark, updateAccInfo, absent, bind,
      Except.bind] at unwound
  | some so =>
    refine ⟨so, rfl, ?_⟩
    by_contra kept
    -- an access that finds no account drops the mark, and the object is back
    let t := { s.snapshot with updatedAccount := Function.update s.updatedAccount addr false }
    have done : s.snapshot.step cfg (.suicide addr) = .ok t := by
      simp [step, suicide, getStateObject, getDeletedStateObject, snapshot, cached, mark,
        updateAccInfo, absent, t]
    have entries : t.journal.entries = [] ++ s.journal.entries := rfl
    obtain ⟨_, unwound, same⟩ := restores.after_step done entries rfl
    cases unwound
    have after := same addr
    rw [exist_eq, exist_eq] at after
    simp [t, snapshot, cached, mark, absent, kept] at after

/-- In a state that operations reach, going back to a snapshot after any operations, nested snapshots
and reverts restores every observable without a nil dereference if and only if the cached objects
and the marks of the state agree with the stored accounts. -/
theorem revert_restores_iff (reached : Reached cfg s) : RevertRestores cfg s ↔ Restorable s := by
  constructor
  · exact fun restores => ⟨restores.deleted, restores.marked⟩
  · exact revertRestores_of_restorable reached

end

/-- Stand-ins for the hash functions, after Mars. -/
def marsConfig : Config where
  higherThanMars := true
  keccak := fun code => BitVec.ofNat 256 (code.length + 1)
  blacklistedAddr := fun _ => false

/-- Nothing cached over a store with the given accounts, some of them marked as updated. -/
def uncachedState (accounts : Address → Option Account) (marked : Address → Bool) : CommitStateDB :=
  { newCommitStateDB ⟨⟨accounts, fun _ _ => 0, fun _ => none⟩, ⟨fun _ _ => 0, fun _ => none⟩⟩ 0 0 0 with
    updatedAccount := marked }

def revivedState : CommitStateDB :=
  (uncachedState (fun addr => if addr = 7 then some ⟨5, 0, none⟩ else none) (· = 7)).setStateObject 7
    { newStateObject marsConfig ⟨0, 0, none⟩ emptyTrie with deleted := true }

theorem reached_uncachedState (accounts : Address → Option Account) (marked : Address → Bool) :
    Reached marsConfig (uncachedState accounts marked) := ⟨uncachedState accounts marked, [], rfl⟩

/-- Creating the account and going back makes the stored account visible; and if the account is
marked but not stored, undoing its first change of nonce dereferences nil. -/
theorem revivedState_not_restored : Reached marsConfig revivedState ∧
    (∃ t u, revivedState.snapshot.run marsConfig [.createAccount 7] = .ok t ∧
      t.revertToSnapshot marsConfig revivedState.nextRevisionID = .ok u ∧
      revivedState.exist marsConfig 7 = false ∧ u.exist marsConfig 7 = true) ∧
    ∃ t, (uncachedState (fun _ => none) (· = 7)).snapshot.run marsConfig [.setNonce 7 1] = .ok t ∧
      t.revertToSnapshot marsConfig 0 = .error .nilObject :=
  ⟨⟨revivedState, [], rfl⟩, ⟨_, _, rfl, rfl, by decide, by decide⟩, _, rfl, rfl⟩

/-- In a state with nothing cached and nothing marked, going back restores everything. -/
theorem revert_restores_uncached :
    RevertRestores marsConfig (uncachedState (fun addr => if addr = 7 then some ⟨5, 0, none⟩ else none)
      fun _ => false) :=
  (revert_restores_iff (reached_uncachedState _ _)).mpr
    ⟨fun addr so cached => by simp [uncachedState, newCommitStateDB] at cached,
      fun addr mark => by simp [uncachedState] at mark⟩

end Exchain.Evm
