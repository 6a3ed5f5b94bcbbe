import Exchain.Evm.Cells

namespace Exchain.Evm

open CommitStateDB JournalEntry

/-- Accounts marked as updated from outside are stored as they were; one marked but not stored has a
deleted object, so that no access finds it half way. -/
structure Steady (accounts : Address → Option Account) (s : CommitStateDB) : Prop where
  stored : ∀ addr, s.updatedAccount addr = true → s.db.kv.accounts addr = accounts addr
  missing : ∀ addr, s.updatedAccount addr = true → accounts addr = none →
    ∃ so, s.stateObjects.lookup addr = some so ∧ so.deleted = true

/-- The states differ in cached objects and dropped marks only. -/
structure SameBut (s t : CommitStateDB) : Prop where
  db : t.db = s.db
  substate : t.substate = s.substate
  journal : t.journal = s.journal
  marks : ∀ addr, t.updatedAccount addr = true → s.updatedAccount addr = true

theorem SameBut.refl (s : CommitStateDB) : SameBut s s := ⟨rfl, rfl, rfl, fun _ => id⟩

theorem SameBut.trans {s t u : CommitStateDB} (first : SameBut s t) (second : SameBut t u) :
    SameBut s u where
  db := second.db.trans first.db
  substate := second.substate.trans first.substate
  journal := second.journal.trans first.journal
  marks := fun addr mark => first.marks addr (second.marks addr mark)

theorem SameBut.setStateObject (s : CommitStateDB) (addr : Address) (so : StateObject) :
    SameBut s (s.setStateObject addr so) := ⟨rfl, rfl, rfl, fun _ => id⟩

section

variable {cfg : Config} {s : CommitStateDB} {addr : Address}

/-- Refreshing replaces the account at most, by the stored one of a marked address. -/
theorem refreshed_eq (s : CommitStateDB) (addr : Address) (so : StateObject) :
    ∃ account, s.refreshed addr so = { so with account := account } ∧
      (s.updatedAccount addr = false → account = so.account) ∧
      (s.updatedAccount addr = true → ∀ stored, s.db.kv.accounts addr = some stored →
        account = stored) := by
  unfold refreshed updateAccInfo
  cases s.updatedAccount addr with
  | false => exact ⟨so.account, by simp⟩
  | true =>
    cases s.db.kv.accounts addr with
    | none => exact ⟨so.account, by simp⟩
    | some stored => exact ⟨stored, by simp⟩

@[simp] theorem deleted_refreshed (so : StateObject) :
    (s.refreshed addr so).deleted = so.deleted := by
  obtain ⟨_, same, -⟩ := refreshed_eq s addr so
  rw [same]

theorem refreshed_of_unmarked (clear : s.updatedAccount addr = false) (so : StateObject) :
    s.refreshed addr so = so := by
  simp [refreshed, clear]

theorem cell_setStateObject (s : CommitStateDB) (account : Address) (so : StateObject)
    (addr : Address) : (s.setStateObject account so).cell cfg addr =
      if addr = account then some ((s.refreshed account so).settled cfg) else s.cell cfg addr := by
  simp only [cell, setStateObject]
  by_cases same : addr = account
  · subst same
    simp [refreshed, updateAccInfo]
  · simp [same, refreshed, updateAccInfo]

theorem cell_eq_none_iff : s.cell cfg addr = none ↔ s.stateObjects.lookup addr = none := by
  simp [cell]

theorem cell_eq_some {so : StateObject} (cached : s.cell cfg addr = some so) :
    ∃ raw, s.stateObjects.lookup addr = some raw ∧ (s.refreshed addr raw).settled cfg = so := by
  simpa [cell] using cached

theorem Steady.setStateObject {accounts : Address → Option Account} (steady : Steady accounts s)
    {so : StateObject} (kept : accounts addr = none → s.updatedAccount addr = true →
      so.deleted = true) : Steady accounts (s.setStateObject addr so) := by
  refine ⟨steady.stored, fun other mark absent => ?_⟩
  simp only [CommitStateDB.setStateObject]
  by_cases same : other = addr
  · subst same
    exact ⟨so, by simp, kept absent mark⟩
  · simpa [same] using steady.missing other mark absent

end

/-- An access to a cached object returns the object of the cell unless that is deleted, and drops
the mark. -/
theorem getStateObject_cached {cfg : Config} {accounts : Address → Option Account}
    {s : CommitStateDB} (steady : Steady accounts s) {addr : Address} {so : StateObject}
    (cached : s.cell cfg addr = some so) :
    ∃ found t, s.getStateObject cfg addr = (found, t) ∧ SameBut s t ∧
      (∀ other, t.cell cfg other = s.cell cfg other) ∧ t.updatedAccount addr = false ∧
      Steady accounts t ∧
      (so.deleted = true ∧ found = none ∨
        so.deleted = false ∧ ∃ raw, found = some raw ∧ raw.settled cfg = so) := by
  obtain ⟨raw, looked, rfl⟩ := cell_eq_some cached
  cases mark : s.updatedAccount addr with
  | false =>
    refine ⟨if raw.deleted then none else some raw, s, ?_, .refl s, fun _ => rfl, mark, steady, ?_⟩
    · by_cases gone : raw.deleted <;> simp [getStateObject, getDeletedStateObject, looked, mark, gone]
    · by_cases gone : raw.deleted <;> simp [gone, refreshed_of_unmarked mark]
  | true =>
    -- the mark is consumed: the account is reloaded, which a deleted object may fail to do
    have unmarked : ∀ other, Function.update s.updatedAccount addr false other = true →
        other ≠ addr ∧ s.updatedAccount other = true := by
      intro other still
      by_cases same : other = addr
      · subst same
        simp at still
      · exact ⟨same, by simpa [same] using still⟩
    have dropped : Steady accounts
        { s with updatedAccount := Function.update s.updatedAccount addr false } :=
      ⟨fun other still => steady.stored other (unmarked other still).2,
        fun other still => steady.missing other (unmarked other still).2⟩
    cases stored : s.db.kv.accounts addr with
    | none =>
      have gone : raw.deleted = true := by
        obtain ⟨_, again, gone⟩ := steady.missing addr mark
          ((steady.stored addr mark).symm.trans stored)
        cases looked.symm.trans again
        exact gone
      refine ⟨none, { s with updatedAccount := Function.update s.updatedAccount addr false },
        ?_, ⟨rfl, rfl, rfl, fun other still => (unmarked other still).2⟩, ?_, by simp,
        dropped, ?_⟩
      · simp [getStateObject, getDeletedStateObject, looked, mark, updateAccInfo, stored]
      · intro other
        simp only [cell]
        by_cases same : other = addr
        · subst same
          simp [refreshed, mark, updateAccInfo, stored]
        · simp [refreshed, updateAccInfo, same]
      · exact .inl ⟨by simpa using gone, rfl⟩
    | some account =>
      refine ⟨if raw.deleted then none else some { raw with account := account },
        { s with updatedAccount := Function.update s.updatedAccount addr false }.setStateObject addr
          { raw with account := account }, ?_,
        ⟨rfl, rfl, rfl, fun other still => (unmarked other still).2⟩, ?_, by
          simp [CommitStateDB.setStateObject], ?_, ?_⟩
      · by_cases gone : raw.deleted <;>
          simp [getStateObject, getDeletedStateObject, looked, mark, updateAccInfo, stored, gone]
      · intro other
        rw [cell_setStateObject]
        by_cases same : other = addr
        · subst same
          simp [cell, looked, refreshed, mark, updateAccInfo, stored]
        · simp [cell, refreshed, updateAccInfo, same]
      · exact dropped.setStateObject fun _ still => absurd rfl (unmarked addr still).1
      · by_cases gone : raw.deleted <;>
          simp [refreshed, mark, updateAccInfo, stored]

theorem getStateObject_uncached {cfg : Config} {s : CommitStateDB} {addr : Address}
    (uncached : s.cell cfg addr = none) :
    s.getStateObject cfg addr = match s.db.kv.accounts addr with
      | none => (none, s)
      | some account =>
        (some (loadObject cfg s.db addr account),
          s.setStateObject addr (loadObject cfg s.db addr account)) := by
  rw [cell_eq_none_iff] at uncached
  cases stored : s.db.kv.accounts addr with
  | none => simp [getStateObject, getDeletedStateObject, uncached, stored]
  | some =>
    simp [getStateObject, getDeletedStateObject, uncached, stored, loadObject, newStateObject]

section

variable {cfg : Config} {entry : JournalEntry} {addr : Address} {change : StateObject → StateObject}
  (changes : entry.objectChange = some (addr, change))

include changes

theorem objectChange_settled (so : StateObject) :
    (change so).settled cfg = change (so.settled cfg) := by
  cases entry <;> cases changes <;> rfl

theorem undo_of_objectChange :
    (∀ other cell, entry.undoCell cfg other cell = if other = addr then cell.map change else cell) ∧
      (∀ kv, entry.undoKV kv = kv) ∧ ∀ sub, entry.undoSubstate sub = some sub := by
  cases entry <;> cases changes
  all_goals exact ⟨fun _ _ => rfl, fun _ => rfl, fun _ => rfl⟩

end

structure Undone (cfg : Config) (accounts : Address → Option Account) (entry : JournalEntry)
    (s t : CommitStateDB) : Prop where
  cells : ∀ addr, t.cell cfg addr = entry.undoCell cfg addr (s.cell cfg addr)
  kv : t.db.kv = entry.undoKV s.db.kv
  mpt : t.db.mpt = s.db.mpt
  substate : entry.undoSubstate s.substate = some t.substate
  journal : t.journal = s.journal
  marks : ∀ addr, t.updatedAccount addr = true → s.updatedAccount addr = true
  steady : Steady accounts t

variable {cfg : Config} {accounts : Address → Option Account} {s : CommitStateDB}
  (steady : Steady accounts s)

include steady

section

variable {entry : JournalEntry} (live : LiveEntry cfg s.updatedAccount accounts (s.cell cfg) entry)

include live

theorem modify_live {addr : Address} {change : StateObject → StateObject}
    (changes : entry.objectChange = some (addr, change)) :
    ∃ raw t, s.getStateObject cfg addr = (some raw, t) ∧
      Undone cfg accounts entry s (t.setStateObject addr (change raw)) := by
  obtain ⟨_, cached, alive⟩ := live.change addr _ changes
  obtain ⟨_, t, got, same, cells, clear, steady, ⟨gone, -⟩ | ⟨-, raw, rfl, rfl⟩⟩ :=
    getStateObject_cached steady cached
  · simp [alive] at gone
  obtain ⟨undoes, kv, substate⟩ := @undo_of_objectChange cfg _ _ _ changes
  refine ⟨raw, t, got, ?_, ?_, congrArg Db.mpt same.db, ?_, same.journal, same.marks,
    steady.setStateObject fun _ mark => by simp [clear] at mark⟩
  · intro other
    rw [cell_setStateObject, refreshed_of_unmarked clear, objectChange_settled changes, cells, undoes]
    by_cases here : other = addr
    · simp [here, cached]
    · simp [here]
  · rw [kv]
    exact congrArg Db.kv same.db
  · rw [substate]
    exact congrArg some same.substate.symm

theorem revert_live {sub : Substate} (undone : entry.undoSubstate s.substate = some sub) :
    ∃ t, entry.revert cfg s = .ok t ∧ Undone cfg accounts entry s t := by
  cases entry with
  | createObjectChange account =>
    refine ⟨_, rfl, ?_, rfl, rfl, rfl, rfl, fun _ => id, steady.stored, ?_⟩
    · intro addr
      by_cases same : addr = account <;>
        simp [cell, undoCell, replacement, AList.lookup_erase_if, same, refreshed, updateAccInfo]
    intro addr mark absent
    have other : addr ≠ account := by
      rintro rfl
      simp [live.create addr rfl] at mark
    simpa [AList.lookup_erase_if, other] using steady.missing addr mark absent
  | resetObjectChange account prev =>
    refine ⟨_, rfl, ?_, rfl, rfl, rfl, rfl, fun _ => id, steady.setStateObject ?_⟩
    · intro addr
      rw [cell_setStateObject]
      by_cases same : addr = account
      · subst same
        obtain ⟨_, refresh, _, stored⟩ := refreshed_eq s addr prev
        have settled : (s.refreshed addr prev).settled cfg = prev.settled cfg := by
          cases mark : s.updatedAccount addr with
          | false => rw [refreshed_of_unmarked mark]
          | true =>
            obtain ⟨account, found, hash⟩ :=
              Option.map_eq_some_iff.mp (live.reset addr prev rfl mark)
            rw [refresh, stored mark account ((steady.stored addr mark).trans found)]
            simp [StateObject.settled, hash]
        simp [undoCell, replacement, settled]
      · simp [undoCell, replacement, same]
    · intro absent mark
      simpa [absent] using live.reset account prev rfl mark
  | suicideChange =>
    obtain ⟨_, _, got, done⟩ := modify_live steady live rfl
    exact ⟨_, by simp only [revert, got], done⟩
  | balanceChange | nonceChange | storageChange | codeChange =>
    obtain ⟨_, _, got, done⟩ := modify_live steady live rfl
    exact ⟨_, by simp only [revert, modifyObject, got], done⟩
  | accessListAddSlotChange =>
    obtain ⟨al, deleted, -⟩ := Option.map_eq_some_iff.mp undone
    refine ⟨s.withAccessList al, by simp only [revert, deleted],
      fun _ => rfl, rfl, rfl, ?_, rfl, fun _ => id, steady.stored, steady.missing⟩
    simp [undoSubstate, deleted, withAccessList]
  | cmChange sets =>
    have clear := live.bridge sets rfl
    refine ⟨_, rfl, fun addr => ?_, rfl, rfl, rfl, rfl, fun _ => id, ?_, ?_⟩
    · simp [cell, withKV, refreshed, clear, undoCell, replacement, objectChange]
    all_goals
      intro addr mark
      simp [withKV, clear] at mark
  | refundChange | addLogChange | addPreimageChange | touchChange | accessListAddAccountChange =>
    exact ⟨_, rfl, fun _ => rfl, rfl, rfl, rfl, rfl, fun _ => id, steady.stored, steady.missing⟩

end

structure Unwound (cfg : Config) (accounts : Address → Option Account)
    (entries : List JournalEntry) (s t : CommitStateDB) : Prop where
  cells : ∀ addr, t.cell cfg addr = cellAfter cfg entries addr (s.cell cfg addr)
  kv : t.db.kv = kvAfter entries s.db.kv
  mpt : t.db.mpt = s.db.mpt
  substate : substateAfter entries s.substate = some t.substate
  marks : ∀ addr, t.updatedAccount addr = true → s.updatedAccount addr = true
  steady : Steady accounts t

theorem unwind_live {entries : List JournalEntry}
    (live : Live cfg s.updatedAccount accounts entries (s.cell cfg)) {sub : Substate}
    (undone : substateAfter entries s.substate = some sub) :
    ∃ t, unwind cfg entries s = .ok t ∧ Unwound cfg accounts entries s t := by
  induction entries generalizing s with
  | nil => exact ⟨s, rfl, fun _ => rfl, rfl, rfl, rfl, fun _ => id, steady⟩
  | cons entry older ih =>
    obtain ⟨here, below⟩ := live
    simp only [substateAfter, List.foldlM_cons, Option.bind_eq_bind, Option.bind_eq_some_iff] at undone
    obtain ⟨_, first, rest⟩ := undone
    obtain ⟨t, reverted, done⟩ := revert_live steady here first
    cases first.symm.trans done.substate
    have after : Live cfg t.updatedAccount accounts older (t.cell cfg) := by
      rw [show t.cell cfg = fun addr => entry.undoCell cfg addr (s.cell cfg addr) from
        funext done.cells]
      exact below.mono done.marks fun addr so cached kept => ⟨so, cached, kept⟩
    obtain ⟨u, unwound, whole⟩ := ih (s := { t with journal := t.journal.undirty entry })
      ⟨done.steady.stored, done.steady.missing⟩ after rest
    refine ⟨u, ?_, ?_, ?_, whole.mpt.trans done.mpt, ?_,
      fun addr mark => done.marks addr (whole.marks addr mark), whole.steady⟩
    · rw [unwind, reverted]
      exact unwound
    · intro addr
      exact (whole.cells addr).trans (congrArg (cellAfter cfg older addr) (done.cells addr))
    · exact whole.kv.trans (congrArg (kvAfter older) done.kv)
    · simp only [substateAfter, List.foldlM_cons, Option.bind_eq_bind, first]
      exact whole.substate

end Exchain.Evm
