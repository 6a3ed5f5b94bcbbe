import Exchain.Evm.Anchored

namespace Exchain.Evm

open CommitStateDB JournalEntry AccessList

/-- Nothing hides a stored account from the getters. -/
def Unhidden (cfg : Config) (base : CommitStateDB) : Prop :=
  ∀ addr, viewAt cfg base.db addr (base.cell cfg addr) = none → base.db.kv.accounts addr = none

/-- A state reached with more entries in the journal, and anchored still. -/
def Continues (cfg : Config) (base : CommitStateDB) (since : List JournalEntry)
    (t : CommitStateDB) : Prop :=
  ∃ newer, Anchored cfg base (newer ++ since) t

/-- A slot that is read for good is in the snapshot's store as it is in the present one. -/
def SlotReadFaithfully (cfg : Config) (base : CommitStateDB) (since : List JournalEntry)
    (s : CommitStateDB) (addr : Address) (key : Hash) : Prop :=
  ¬ Overwrites cfg since addr → ∀ so, (s.getStateObject cfg addr).1 = some so →
    so.stateAt cfg s.db addr key = so.stateAt cfg base.db addr key

/-- The same for code, where nothing is remembered of code that is missing. -/
def CodeReadFaithfully (cfg : Config) (base : CommitStateDB) (since : List JournalEntry)
    (s : CommitStateDB) (addr : Address) : Prop :=
  ¬ Overwrites cfg since addr → ∀ so, (s.getStateObject cfg addr).1 = some so →
    codeOf cfg s.db so.code (so.codeHash cfg) = codeOf cfg base.db so.code (so.codeHash cfg) ∨
      cfg.higherThanMars = false ∧ codeOf cfg s.db so.code (so.codeHash cfg) = []

/-- Whatever an operation loads for good into the cache is stored as at the snapshot. -/
def ReadsFaithfully (cfg : Config) (base : CommitStateDB) (since : List JournalEntry)
    (s : CommitStateDB) : Op → Prop
  | .setBalance addr _ | .addBalance addr _ | .subBalance addr _ | .setNonce addr _
  | .createAccount addr | .suicide addr | .getAccount addr => LoadsFaithfully cfg base since s addr
  | .setState addr key _ | .getState addr key | .getCommittedState addr key =>
    LoadsFaithfully cfg base since s addr ∧ SlotReadFaithfully cfg base since s addr key
  | .setCode addr _ | .getCode addr =>
    LoadsFaithfully cfg base since s addr ∧ CodeReadFaithfully cfg base since s addr
  | _ => True

variable {cfg : Config} {base s t : CommitStateDB} {since : List JournalEntry} {addr : Address}

abbrev freshObject (cfg : Config) : StateObject :=
  newStateObject cfg (newAccountWithAddress cfg) emptyTrie

namespace Anchored

variable (anchored : Anchored cfg base since s)

include anchored

theorem create (unhidden : Unhidden cfg base) (absent : Absent cfg s addr) :
    Anchored cfg base (.createObjectChange addr :: since)
      ((s.append (.createObjectChange addr)).setStateObject addr (freshObject cfg)) := by
  have replaces : (createObjectChange addr).replacement cfg = some (addr, none) := rfl
  refine anchored.replace replaces ⟨by simp [objectChange], ?_, by simp, by simp⟩ ?_ ?_ ?_
  · rintro other ⟨⟩
    exact absent.unmarked
  · intro so cached kept
    simp [absent.dead so cached] at kept
  · -- what stands in the cache, if anything, is a deleted object
    by_cases overwritten : Overwrites cfg since addr
    · rw [cellAfter_overwritten overwritten]
    have untouched := anchored.live.cellAfter_eq_self overwritten absent.dead
    cases cached : s.cell cfg addr with
    | none => rfl
    | some so =>
      have view := anchored.views addr
      have gone := absent.dead so cached
      rw [untouched, cached] at view
      rw [untouched, untouched]
      simp only [viewAt, gone, if_true] at view ⊢
      rw [unhidden addr view.symm, Option.map_none]
  · intro mark
    simp [absent.unmarked] at mark

theorem getOrNewStateObject (unhidden : Unhidden cfg base)
    (faithful : LoadsFaithfully cfg base since s addr) :
    ∃ raw so t newer, s.getOrNewStateObject cfg addr = (raw, t) ∧
      Anchored cfg base (newer ++ since) t ∧ t.db = s.db ∧
      Held cfg t addr raw so ∧
      (¬ Overwrites cfg (newer ++ since) addr →
        newer = [] ∧ (s.getStateObject cfg addr).1 = some raw) := by
  obtain ⟨_, t, got, anchored, same, ⟨rfl, absent⟩ | ⟨raw, so, rfl, held⟩⟩ :=
    anchored.getStateObject faithful
  · obtain ⟨u, again, anchored, same', absent⟩ := anchored.getStateObject_absent absent
    have unmarked : (u.append (.createObjectChange addr)).updatedAccount addr = false :=
      absent.unmarked
    refine ⟨freshObject cfg, freshObject cfg, _, [.createObjectChange addr],
      by simp only [CommitStateDB.getOrNewStateObject, createObject, got, again],
      anchored.create unhidden absent, (same.trans same').db,
      ⟨?_, rfl, rfl, fun mark => ?_⟩,
      fun kept => (kept ⟨_, List.mem_cons_self, none, rfl⟩).elim⟩
    · rw [cell_setStateObject, if_pos rfl, refreshed_of_unmarked unmarked]
      rfl
    · exact absurd (unmarked.symm.trans mark) (by simp)
  · exact ⟨raw, so, t, [], by simp only [CommitStateDB.getOrNewStateObject, got], anchored,
      same.db, held, fun _ => ⟨rfl, by rw [got]⟩⟩

theorem balanceChange {raw so : StateObject} (held : Held cfg s addr raw so) (amount : Nat) :
    Anchored cfg base (.balanceChange addr raw.account.balance :: since)
      ((s.append (.balanceChange addr raw.account.balance)).setStateObject addr
        (raw.setBalance amount)) := by
  have changes : (JournalEntry.balanceChange addr raw.account.balance).objectChange =
    some (addr, _) := rfl
  refine anchored.change held changes ?_
  obtain rfl := held.settled
  rcases held.settled_eq (raw.setBalance amount) with settled | settled
  all_goals rw [settled]
  all_goals exact .refl _

theorem setObjectBalance {raw so : StateObject} (held : Held cfg s addr raw so) {amount : Int}
    (done : s.setObjectBalance addr raw amount = .ok t) :
    Anchored cfg base (.balanceChange addr raw.account.balance :: since) t := by
  unfold CommitStateDB.setObjectBalance at done
  split at done
  · simp at done
  cases done
  exact anchored.balanceChange held _

end Anchored

theorem setStateObject_twice (s : CommitStateDB) (addr : Address) (so other : StateObject) :
    (s.setStateObject addr so).setStateObject addr other = s.setStateObject addr other := by
  simp [CommitStateDB.setStateObject]

variable {raw so : StateObject}

theorem Held.setStateObject (held : Held cfg s addr raw so)
    {other : StateObject} (same : other.account = raw.account) (kept : other.deleted = false) :
    Held cfg (s.setStateObject addr other) addr other { other with account := so.account } := by
  refine ⟨?_, kept, ?_, held.marked⟩
  · rw [cell_setStateObject, if_pos rfl, held.settled_of_account other same]
  · obtain rfl := held.settled
    simp [StateObject.settled, same]

theorem Held.raw_alive (held : Held cfg s addr raw so) : raw.deleted = false := by
  obtain rfl := held.settled
  exact held.alive

section

variable (anchored : Anchored cfg base since s) (held : Held cfg s addr raw so)

include anchored held

theorem Anchored.remember {other : StateObject} (same : other.account = raw.account)
    (alike : Overwrites cfg since addr ∨ other.Alike cfg base.db addr raw)
    (kept : other.deleted = false) : Anchored cfg base since (s.setStateObject addr other) ∧
      Held cfg (s.setStateObject addr other) addr other { other with account := so.account } := by
  refine ⟨anchored.setStateObject held (held.settled_of_account other same) kept (alike.imp_right ?_),
    held.setStateObject same kept⟩
  rintro ⟨deleted, view⟩
  obtain rfl := held.settled
  have settled : { other with account := (raw.settled cfg).account } = other.settled cfg := by
    simp [StateObject.settled, same]
  rw [settled]
  exact ⟨deleted, by rw [StateObject.view_settled, StateObject.view_settled, view]⟩

theorem Anchored.storageChange {key prev : Hash}
    (known : raw.stateAt cfg base.db addr key = prev) (value : Hash) :
    Anchored cfg base (.storageChange addr key prev :: since)
      ((s.append (.storageChange addr key prev)).setStateObject addr (raw.setState key value)) := by
  have changes : (JournalEntry.storageChange addr key prev).objectChange = some (addr, _) := rfl
  refine anchored.change held changes ?_
  have settled : (s.refreshed addr (raw.setState key value)).settled cfg = so.setState key value := by
    rw [held.settled_of_account (raw.setState key value) rfl]
    obtain rfl := held.settled
    rfl
  have same : so.stateAt cfg base.db addr key = prev := by
    obtain rfl := held.settled
    exact known
  rw [settled]
  refine ⟨rfl, ?_⟩
  simp only [StateObject.view_setState, StateObject.stateAt_setState, Function.update_idem]
  rw [← same, Function.update_eq_self]
  rfl

theorem Anchored.codeChange {prev : Option Code}
    (known : codeOf cfg base.db prev (raw.codeHash cfg) =
      codeOf cfg base.db raw.code (raw.codeHash cfg)) (hash : Hash) (code : Option Code) :
    Anchored cfg base (.codeChange addr (raw.codeHash cfg) prev :: since)
      ((s.append (.codeChange addr (raw.codeHash cfg) prev)).setStateObject addr
        (raw.setCode hash code)) := by
  have changes : (JournalEntry.codeChange addr (raw.codeHash cfg) prev).objectChange =
    some (addr, _) := rfl
  refine anchored.change held changes ?_
  obtain rfl := held.settled
  rcases held.settled_eq (raw.setCode hash code) with settled | settled
  all_goals rw [settled]
  all_goals refine ⟨rfl, ?_⟩
  all_goals rw [StateObject.view_settled]
  all_goals simp only [StateObject.view, StateObject.setCode, StateObject.codeHash, Option.getD_some]
  all_goals rw [← StateObject.codeHash, known]
  all_goals rfl

end

theorem Continues.cons {newer : List JournalEntry} {entry : JournalEntry}
    (anchored : Anchored cfg base (entry :: (newer ++ since)) t) : Continues cfg base since t :=
  ⟨entry :: newer, anchored⟩

namespace Anchored

theorem touch (anchored : Anchored cfg base since s) (addr : Address) :
    Anchored cfg base (.touchChange addr :: since) (s.touch addr) := by
  have touched : ∃ journal : Journal, journal.entries = .touchChange addr :: s.journal.entries ∧
      s.touch addr = { s with journal := journal } := by
    unfold CommitStateDB.touch
    split
    · exact ⟨(s.journal.append (.touchChange addr)).dirty addr, by simp [Journal.dirty], rfl⟩
    · exact ⟨s.journal.append (.touchChange addr), by simp, rfl⟩
  obtain ⟨_, appended, same⟩ := touched
  rw [same]
  exact anchored.substateChange rfl appended rfl

section

variable (anchored : Anchored cfg base since s) (unhidden : Unhidden cfg base)
  (faithful : LoadsFaithfully cfg base since s addr)

include anchored unhidden faithful

variable {amount : Int}

theorem setBalance (done : s.setBalance cfg addr amount = .ok t) : Continues cfg base since t := by
  obtain ⟨_, _, _, _, got, anchored, -, held, -⟩ :=
    anchored.getOrNewStateObject unhidden faithful
  simp only [CommitStateDB.setBalance, got] at done
  exact .cons (anchored.setObjectBalance held done)

theorem addBalance (done : s.addBalance cfg addr amount = .ok t) : Continues cfg base since t := by
  obtain ⟨_, _, _, newer, got, anchored, -, held, -⟩ :=
    anchored.getOrNewStateObject unhidden faithful
  simp only [CommitStateDB.addBalance, got] at done
  split at done
  · cases done
    split
    · exact .cons (anchored.touch addr)
    · exact ⟨newer, anchored⟩
  · exact .cons (anchored.setObjectBalance held done)

theorem subBalance (done : s.subBalance cfg addr amount = .ok t) : Continues cfg base since t := by
  obtain ⟨_, _, _, newer, got, anchored, -, held, -⟩ :=
    anchored.getOrNewStateObject unhidden faithful
  simp only [CommitStateDB.subBalance, got] at done
  split at done
  · cases done
    exact ⟨newer, anchored⟩
  · exact .cons (anchored.setObjectBalance held done)

theorem setNonce (nonce : UInt64) : Continues cfg base since (s.setNonce cfg addr nonce) := by
  obtain ⟨raw, _, _, _, got, anchored, -, held, -⟩ :=
    anchored.getOrNewStateObject unhidden faithful
  simp only [CommitStateDB.setNonce, got]
  have changes : (nonceChange addr raw.account.sequence).objectChange = some (addr, _) := rfl
  refine .cons (anchored.change held changes ?_)
  obtain rfl := held.settled
  rcases held.settled_eq (raw.setNonce nonce) with settled | settled
  all_goals rw [settled]
  all_goals exact .refl _

theorem setState {key value : Hash} (slot : SlotReadFaithfully cfg base since s addr key) :
    Continues cfg base since (s.setState cfg addr key value) := by
  obtain ⟨raw, _, between, newer, got, anchored, db, held, origin⟩ :=
    anchored.getOrNewStateObject unhidden faithful
  obtain ⟨_, read⟩ := raw.getState_eq cfg between.db addr key
  have alike : Overwrites cfg (newer ++ since) addr ∨
      (raw.getState cfg between.db addr key).2.Alike cfg base.db addr raw := by
    refine (Classical.em _).imp_right fun kept => ?_
    obtain ⟨rfl, found⟩ := origin kept
    exact StateObject.alike_getState (by rw [db]; exact slot kept raw found)
  have known : (raw.getState cfg between.db addr key).2.stateAt cfg base.db addr key =
      (raw.getState cfg between.db addr key).1 := by
    rw [StateObject.stateAt_getState, Function.update_self, StateObject.getState_fst]
  obtain ⟨remembered, held⟩ := anchored.remember held (by rw [read]) alike
    (by rw [read]; exact held.raw_alive)
  simp only [CommitStateDB.setState, got]
  split
  · exact ⟨newer, remembered⟩
  · exact .cons (remembered.storageChange held known value)

theorem setCode {code : Option Code} (read : CodeReadFaithfully cfg base since s addr) :
    Continues cfg base since (s.setCode cfg addr code) := by
  obtain ⟨raw, _, between, newer, got, anchored, db, held, origin⟩ :=
    anchored.getOrNewStateObject unhidden faithful
  obtain ⟨_, loads⟩ := raw.getCode_eq cfg between.db
  have alike : Overwrites cfg (newer ++ since) addr ∨
      (raw.getCode cfg between.db).2.Alike cfg base.db addr raw := by
    refine (Classical.em _).imp_right fun kept => ?_
    obtain ⟨rfl, found⟩ := origin kept
    exact StateObject.alike_getCode (by rw [db]; exact read kept raw found)
  have known := raw.codeOf_getCode cfg between.db base.db
  obtain ⟨remembered, held⟩ := anchored.remember held (by rw [loads]) alike
    (by rw [loads]; exact held.raw_alive)
  have hash : (raw.getCode cfg between.db).2.codeHash cfg = raw.codeHash cfg := by
    rw [loads]
    rfl
  simp only [CommitStateDB.setCode, got]
  rw [← hash] at known
  exact .cons (remembered.codeChange held known _ code)

theorem createAccount : Continues cfg base since (s.createAccount cfg addr) := by
  obtain ⟨_, between, got, anchored, _, ⟨rfl, absent⟩ | ⟨raw, so, rfl, held⟩⟩ :=
    anchored.getStateObject faithful
  · simp only [CommitStateDB.createAccount, createObject, got]
    exact ⟨[_], anchored.create unhidden absent⟩
  have created : s.createObject cfg addr = (freshObject cfg, some raw,
      (between.append (.resetObjectChange addr raw)).setStateObject addr (freshObject cfg)) := by
    simp only [createObject, got]
  have replaces : (resetObjectChange addr raw).replacement cfg = some (addr, some so) :=
    congrArg (fun so => some (addr, some so)) held.settled
  have stored : between.updatedAccount addr = true →
      (base.db.kv.accounts addr).map (·.withCodeHash cfg) = some so.account := by
    intro mark
    rw [← anchored.steady.stored addr mark]
    exact held.marked mark
  simp only [CommitStateDB.createAccount, created, setStateObject_twice]
  refine ⟨[_], anchored.replace replaces ⟨by simp [objectChange], by simp, ?_, by simp⟩ ?_ ?_ ?_⟩
  · rintro other prev ⟨⟩ mark
    rw [stored mark, ← held.settled]
    rfl
  · intro other cached kept
    exact ⟨so, rfl, held.alive⟩
  · rw [held.cached]
  · intro mark absent
    simp [absent] at stored
    simp [stored] at mark

end

section

variable (anchored : Anchored cfg base since s)
  (faithful : LoadsFaithfully cfg base since s addr)

include anchored faithful

theorem suicide : Continues cfg base since (s.suicide cfg addr) := by
  obtain ⟨_, between, got, anchored, _, ⟨rfl, _⟩ | ⟨raw, _, rfl, held⟩⟩ :=
    anchored.getStateObject faithful
  · simp only [CommitStateDB.suicide, got]
    exact ⟨[], anchored⟩
  simp only [CommitStateDB.suicide, got]
  have marks : (suicideChange addr raw.suicided raw.account.balance).objectChange =
    some (addr, _) := rfl
  have marked : Anchored cfg base (.suicideChange addr raw.suicided raw.account.balance :: since)
      ((between.append (.suicideChange addr raw.suicided raw.account.balance)).setStateObject addr
        (raw.setSuicided true)) := by
    refine anchored.change held marks ?_
    rw [held.settled_of_account (raw.setSuicided true) rfl]
    obtain rfl := held.settled
    exact .refl _
  have held' := Held.setStateObject
    (s := between.append (.suicideChange addr raw.suicided raw.account.balance))
    ⟨held.cached, held.alive, held.settled, held.marked⟩
    (show (raw.setSuicided true).account = raw.account from rfl) held.raw_alive
  have zeroed := marked.balanceChange held' 0
  refine ⟨[.balanceChange addr raw.account.balance,
    .suicideChange addr raw.suicided raw.account.balance], ?_⟩
  rw [← setStateObject_twice _ addr (raw.setSuicided true)]
  exact zeroed

theorem get {change : StateObject → StateObject}
    (same : ∀ so, (change so).account = so.account ∧ (change so).deleted = so.deleted)
    (alike : ¬ Overwrites cfg since addr → ∀ so, (s.getStateObject cfg addr).1 = some so →
      (change so).Alike cfg base.db addr so) :
    Continues cfg base since (s.load cfg addr change) := by
  obtain ⟨_, _, got, anchored, _, ⟨rfl, _⟩ | ⟨raw, _, rfl, held⟩⟩ :=
    anchored.getStateObject faithful
  · simp only [CommitStateDB.load, got]
    exact ⟨[], anchored⟩
  simp only [CommitStateDB.load, got]
  have fits : Overwrites cfg since addr ∨ (change raw).Alike cfg base.db addr raw :=
    (Classical.em _).imp_right fun kept => alike kept raw (by rw [got])
  obtain ⟨remembered, -⟩ := anchored.remember held (same raw).1 fits
    ((same raw).2.trans held.raw_alive)
  exact ⟨[], remembered⟩

end

variable (anchored : Anchored cfg base since s)

include anchored

theorem substateEntry (entry : JournalEntry) (plain : entry.onSubstate = true) {sub : Substate}
    (undone : entry.undoSubstate sub = some s.substate) :
    Continues cfg base since { s with substate := sub, journal := s.journal.append entry } :=
  ⟨[entry], anchored.substateChange plain (by simp) undone⟩

theorem addLog (address : Address) (topics : List Hash) (data : List UInt8) :
    Continues cfg base since (s.addLog address topics data) := by
  refine anchored.substateEntry (.addLogChange s.thash) rfl ?_
  simp [undoSubstate, CommitStateDB.append]

theorem addPreimage (hash : Hash) (preimage : List UInt8) :
    Continues cfg base since (s.addPreimage hash preimage) := by
  unfold CommitStateDB.addPreimage
  split
  · exact ⟨[], anchored⟩
  rename_i absent
  refine anchored.substateEntry (.addPreimageChange hash) rfl ?_
  simp [undoSubstate, CommitStateDB.append, ← absent]

theorem addRefund (gas : UInt64) : Continues cfg base since (s.addRefund gas) :=
  anchored.substateEntry (.refundChange s.substate.refund) rfl rfl

theorem subRefund {gas : UInt64} (done : s.subRefund gas = .ok t) : Continues cfg base since t := by
  unfold CommitStateDB.subRefund at done
  simp only at done
  split at done
  · simp at done
  cases done
  exact anchored.substateEntry (.refundChange s.substate.refund) rfl rfl

theorem addAddressToAccessList (addr : Address) :
    Continues cfg base since (s.addAddressToAccessList addr) := by
  unfold CommitStateDB.addAddressToAccessList
  cases present : s.substate.accessList.addresses addr with
  | some =>
    simp only [addAddress, present]
    exact ⟨[], anchored⟩
  | none =>
    have undone := deleteAddress_addAddress present
    simp only [addAddress, present] at undone ⊢
    refine anchored.substateEntry (.accessListAddAccountChange addr) rfl ?_
    simp [undoSubstate, undone, withAccessList]

theorem addSlotToAccessList (addr : Address) (slot : Hash) :
    Continues cfg base since (s.addSlotToAccessList addr slot) := by
  unfold CommitStateDB.addSlotToAccessList
  rcases s.substate.accessList.addSlot_cases addr slot with
    ⟨absent, added⟩ | ⟨al, added, undone⟩ | added
  · -- the address is added first, then its first slot
    simp only [added]
    have undone := deleteAddress_addAddress absent
    have first : Anchored cfg base (.accessListAddAccountChange addr :: since)
        { s with
          substate := { s.substate with accessList := (s.substate.accessList.addAddress addr).1 }
          journal := s.journal.append (.accessListAddAccountChange addr) } :=
      anchored.substateChange rfl (by simp) (by simp [undoSubstate, undone])
    refine ⟨[.accessListAddSlotChange addr slot, .accessListAddAccountChange addr],
      first.substateChange rfl (by simp [CommitStateDB.append, withAccessList]) ?_⟩
    simp [undoSubstate, withAccessList, CommitStateDB.append, deleteSlot_openSlots,
      addAddress, absent]
  · simp only [added]
    refine anchored.substateEntry (.accessListAddSlotChange addr slot) rfl ?_
    simp [undoSubstate, undone, withAccessList]
  · simp only [added]
    exact ⟨[], anchored⟩

end Anchored

end Exchain.Evm
