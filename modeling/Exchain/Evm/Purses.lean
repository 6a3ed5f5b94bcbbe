import Exchain.Evm.SnapshotRestore

namespace Exchain.Evm

open CommitStateDB

def Op.changes : Op → Option Address
  | .setBalance addr _ | .addBalance addr _ | .subBalance addr _ | .setNonce addr _
  | .setState addr _ _ | .setCode addr _ | .createAccount addr | .suicide addr => some addr
  | _ => none

def Op.neutral : Op → Bool
  | .setBalance _ _ | .addBalance _ _ | .subBalance _ _ | .suicide _ => false
  | _ => true

/-- A change does not start by loading an account marked as updated: the mark would stay, and the
next access would undo the change. -/
def Refreshes (s : CommitStateDB) (op : Op) : Prop :=
  ∀ addr, op.changes = some addr → s.updatedAccount addr = true →
    (s.stateObjects.lookup addr).isSome = true

/-- Balance and suicide mark; an account that is not there owns nothing. -/
def View.purse : Option View → Nat × Bool
  | some view => (view.balance, view.suicided)
  | none => (0, false)

namespace CommitStateDB

variable (cfg : Config)

def purse (s : CommitStateDB) (addr : Address) : Nat × Bool :=
  View.purse (viewAt cfg s.db addr (s.cell cfg addr))

variable {cfg} {s : CommitStateDB} {accounts : Address → Option Account}

theorem getBalance_eq (steady : Steady accounts s)
    (addr : Address) : s.getBalance cfg addr = (s.purse cfg addr).1 := by
  rw [purse, ← getStateObject_view steady, getBalance]
  cases (s.getStateObject cfg addr).1 <;> rfl

theorem hasSuicided_eq (steady : Steady accounts s)
    (addr : Address) : s.hasSuicided cfg addr = (s.purse cfg addr).2 := by
  rw [purse, ← getStateObject_view steady, hasSuicided]
  cases (s.getStateObject cfg addr).1 <;> rfl

theorem purse_of_cell {addr : Address} {so : StateObject} (cached : s.cell cfg addr = some so)
    (alive : so.deleted = false) : s.purse cfg addr = (so.account.balance, so.suicided) := by
  rw [purse, cached, viewAt, if_neg (by simp [alive])]
  rfl

theorem purse_setStateObject (s : CommitStateDB) (addr other : Address) (so : StateObject)
    (alive : so.deleted = false) : (s.setStateObject addr so).purse cfg other =
      if other = addr then ((s.refreshed addr so).account.balance, so.suicided)
      else s.purse cfg other := by
  rw [purse, cell_setStateObject]
  by_cases same : other = addr
  · subst same
    obtain ⟨_, refresh, _⟩ := refreshed_eq s other so
    rw [if_pos rfl, if_pos rfl, viewAt, if_neg (by simp [alive]), refresh]
    rfl
  · rw [if_neg same, if_neg same]
    rfl

end CommitStateDB

/-- Steps that leave every purse as it is: accesses, objects cached with the purse that the address
has, and journal entries for accounts not marked as updated. -/
inductive Calm (cfg : Config) (s : CommitStateDB) : CommitStateDB → Prop
  | refl : Calm cfg s s
  | access {t : CommitStateDB} (addr : Address) :
      Calm cfg s t → Calm cfg s (t.getStateObject cfg addr).2
  | put {t : CommitStateDB} (addr : Address) {so : StateObject} :
      Calm cfg s t → so.deleted = false →
      ((t.refreshed addr so).account.balance, so.suicided) = t.purse cfg addr →
      (t.db.kv.accounts addr = none → t.updatedAccount addr = false) →
      Calm cfg s (t.setStateObject addr so)
  | append {t : CommitStateDB} {entry : JournalEntry} :
      Calm cfg s t → (∀ addr, entry.dirtied = some addr → t.updatedAccount addr = false) →
      Calm cfg s (t.append entry)
  | dirty {t : CommitStateDB} (addr : Address) : Calm cfg s t → t.updatedAccount addr = false →
      Calm cfg s { t with journal := t.journal.dirty addr }
  | substate {t : CommitStateDB} (sub : Substate) :
      Calm cfg s t → Calm cfg s { t with substate := sub }

/-- The dirty counts cover the entries of the journal, and no dirty account is marked. -/
structure Counted (s : CommitStateDB) : Prop where
  covers : ∀ addr, s.journal.entries.countP (fun entry => entry.dirtied == some addr) ≤
    (s.journal.dirties.lookup addr).getD 0
  unmarked : ∀ addr, addr ∈ s.journal.dirties → s.updatedAccount addr = false

section

variable {cfg : Config} {s : CommitStateDB} {addr : Address}

/-- What an access leaves: the same purses over the same stores. -/
theorem access_spec (cfg : Config) (steady : Steady s.db.kv.accounts s) (addr : Address) :
    ∃ found t, s.getStateObject cfg addr = (found, t) ∧ SameBut s t ∧
      Steady s.db.kv.accounts t ∧ (∀ other, t.purse cfg other = s.purse cfg other) ∧
      (found = none ∧ Absent cfg t addr ∨ ∃ raw so, found = some raw ∧ Held cfg t addr raw so) := by
  have faithful : LoadsFaithfully cfg s [] s addr := fun _ _ _ stored => stored
  have start : Anchored cfg s [] s := Anchored.refl steady
  obtain ⟨found, t, got, anchored, same, outcome⟩ := start.getStateObject faithful
  refine ⟨found, t, got, same, anchored.steady, fun other => ?_, outcome⟩
  have views := anchored.views other
  unfold purse
  rw [same.db]
  exact congrArg View.purse views

theorem access_unmarked (cfg : Config) (steady : Steady s.db.kv.accounts s)
    (loaded : s.updatedAccount addr = true → (s.stateObjects.lookup addr).isSome = true) :
    (s.getStateObject cfg addr).2.updatedAccount addr = false := by
  cases cached : s.cell cfg addr with
  | some so =>
    obtain ⟨_, _, got, _, _, clear, _⟩ := getStateObject_cached steady cached
    rw [got]
    exact clear
  | none =>
    have looked := cell_eq_none_iff.mp cached
    have clear : s.updatedAccount addr = false := by
      cases mark : s.updatedAccount addr with
      | false => rfl
      | true => simp [looked] at loaded; simp [loaded] at mark
    rw [getStateObject_uncached cached]
    split
    · exact clear
    · exact clear

theorem Held.purse {raw so : StateObject} (held : Held cfg s addr raw so) :
    s.purse cfg addr = (raw.account.balance, raw.suicided) := by
  rw [purse_of_cell held.cached held.alive, ← held.settled]
  rfl

theorem Absent.purse (absent : Absent cfg s addr) : s.purse cfg addr = (0, false) := by
  unfold CommitStateDB.purse
  cases cached : s.cell cfg addr with
  | none => simp [viewAt, absent.unstored cached, View.purse]
  | some so => simp [viewAt, absent.dead so cached, View.purse]

end

namespace Calm

variable {cfg : Config} {s t : CommitStateDB}

theorem db (calm : Calm cfg s t) (steady : Steady s.db.kv.accounts s) :
    t.db = s.db ∧ Steady s.db.kv.accounts t ∧ ∀ addr, t.purse cfg addr = s.purse cfg addr := by
  induction calm with
  | refl => exact ⟨rfl, steady, fun _ => rfl⟩
  | @access t addr _ ih =>
    obtain ⟨db, steady', purses⟩ := ih
    rw [← db] at steady'
    obtain ⟨_, _, got, same, steady'', purses', _⟩ := access_spec cfg steady' addr
    rw [got]
    refine ⟨same.db.trans db, ?_, fun other => (purses' other).trans (purses other)⟩
    rw [← db]
    exact steady''
  | @put t addr so _ alive own stored ih =>
    obtain ⟨db, steady', purses⟩ := ih
    refine ⟨db, steady'.setStateObject ?_, ?_⟩
    · intro absent mark
      rw [← db] at absent
      simp [stored absent] at mark
    intro other
    rw [purse_setStateObject t addr other so alive]
    split
    · rename_i same
      rw [own, same]
      exact purses addr
    · exact purses other
  | append _ _ ih => exact ⟨ih.1, ⟨ih.2.1.stored, ih.2.1.missing⟩, ih.2.2⟩
  | dirty _ _ _ ih => exact ⟨ih.1, ⟨ih.2.1.stored, ih.2.1.missing⟩, ih.2.2⟩
  | substate _ _ ih => exact ⟨ih.1, ⟨ih.2.1.stored, ih.2.1.missing⟩, ih.2.2⟩

end Calm

namespace Counted

variable {cfg : Config} {s t : CommitStateDB} (counted : Counted s)

include counted

theorem append {entry : JournalEntry}
    (unmarked : ∀ addr, entry.dirtied = some addr → s.updatedAccount addr = false) :
    Counted (s.append entry) := by
  unfold CommitStateDB.append Journal.append
  cases dirtied : entry.dirtied with
  | none =>
    refine ⟨fun addr => ?_, counted.unmarked⟩
    simp only [List.countP_cons, dirtied]
    exact counted.covers addr
  | some account =>
    refine ⟨fun addr => ?_, fun addr inside => ?_⟩
    · simp only [Journal.dirty, List.countP_cons, dirtied, AList.lookup_insert_if]
      have before := counted.covers addr
      by_cases same : addr = account
      · subst same
        simp only [beq_self_eq_true, if_true, Option.getD_some]
        omega
      · have other : (some account == some addr) = false := by simpa using Ne.symm same
        simp only [other, same, if_false]
        exact before
    · rcases (AList.mem_insert _).mp inside with rfl | before
      · exact unmarked addr dirtied
      · exact counted.unmarked addr before

theorem dirty {account : Address} (unmarked : s.updatedAccount account = false) :
    Counted { s with journal := s.journal.dirty account } := by
  refine ⟨fun addr => ?_, fun addr inside => ?_⟩
  · simp only [Journal.dirty, AList.lookup_insert_if]
    have before := counted.covers addr
    split
    · rename_i same
      subst same
      simp only [Option.getD_some]
      omega
    · exact before
  · rcases (AList.mem_insert _).mp inside with rfl | before
    · exact unmarked
    · exact counted.unmarked addr before

theorem of_marks (journal : t.journal = s.journal)
    (marks : ∀ addr, t.updatedAccount addr = true → s.updatedAccount addr = true) : Counted t := by
  refine ⟨journal ▸ counted.covers, fun addr inside => ?_⟩
  rw [journal] at inside
  have clear := counted.unmarked addr inside
  cases mark : t.updatedAccount addr with
  | false => rfl
  | true => rw [marks addr mark] at clear; contradiction

theorem calm (calm : Calm cfg s t) (steady : Steady s.db.kv.accounts s) : Counted t := by
  induction calm with
  | refl => exact counted
  | @access t addr before ih =>
    obtain ⟨db, steady', _⟩ := before.db steady
    rw [← db] at steady'
    obtain ⟨_, _, got, same, _⟩ := access_spec cfg steady' addr
    rw [got]
    exact ih.of_marks same.journal same.marks
  | put _ _ _ _ _ ih => exact ⟨ih.covers, ih.unmarked⟩
  | append _ unmarked ih => exact ih.append unmarked
  | dirty _ _ unmarked ih => exact ih.dirty unmarked
  | substate _ _ ih => exact ⟨ih.covers, ih.unmarked⟩

end Counted

/-- The object an operation is about to change: it shows the purse of its address, which is
not marked. -/
structure Owned (cfg : Config) (s : CommitStateDB) (addr : Address) (so : StateObject) : Prop where
  unmarked : s.updatedAccount addr = false
  alive : so.deleted = false
  purse : s.purse cfg addr = (so.account.balance, so.suicided)

namespace Owned

variable {cfg : Config} {s t : CommitStateDB} {addr : Address} {so : StateObject}
  (owned : Owned cfg t addr so)

include owned

theorem put (calm : Calm cfg s t) (other : StateObject) (alive : other.deleted = false)
    (balance : other.account.balance = so.account.balance) (suicided : other.suicided = so.suicided) :
    Calm cfg s (t.setStateObject addr other) ∧ Owned cfg (t.setStateObject addr other) addr other := by
  have plain := refreshed_of_unmarked owned.unmarked other
  refine ⟨calm.put addr alive ?_ fun _ => owned.unmarked, owned.unmarked, alive, ?_⟩
  · rw [plain, owned.purse, balance, suicided]
  · rw [purse_setStateObject t addr addr other alive, if_pos rfl, plain]

theorem append (entry : JournalEntry) :
    Owned cfg (t.append entry) addr so := ⟨owned.unmarked, owned.alive, owned.purse⟩

theorem journal (calm : Calm cfg s t) {entry : JournalEntry}
    (about : ∀ account, entry.dirtied = some account → account = addr) :
    Calm cfg s (t.append entry) :=
  calm.append fun account dirtied => about account dirtied ▸ owned.unmarked

end Owned

variable {cfg : Config} {s t : CommitStateDB} {addr : Address}

theorem create_calm (calm : Calm cfg s t) (absent : Absent cfg t addr) :
    Calm cfg s ((t.append (.createObjectChange addr)).setStateObject addr (freshObject cfg)) ∧
      Owned cfg ((t.append (.createObjectChange addr)).setStateObject addr (freshObject cfg)) addr
        (freshObject cfg) := by
  have empty : Owned cfg t addr (freshObject cfg) := ⟨absent.unmarked, rfl, absent.purse⟩
  have appended : Calm cfg s (t.append (.createObjectChange addr)) := by
    refine empty.journal calm fun account dirtied => ?_
    exact (Option.some.inj dirtied).symm
  exact (empty.append _).put appended (freshObject cfg) rfl rfl rfl

variable (steady : Steady s.db.kv.accounts s)

include steady

theorem load_calm {change : StateObject → StateObject}
    (deleted : ∀ so, (change so).deleted = so.deleted)
    (account : ∀ so, (change so).account = so.account)
    (suicided : ∀ so, (change so).suicided = so.suicided) : Calm cfg s (s.load cfg addr change) := by
  obtain ⟨_, t, got, _, _, _, outcome⟩ := access_spec cfg steady addr
  have calm : Calm cfg s (s.getStateObject cfg addr).2 := Calm.refl.access addr
  rw [got] at calm
  rcases outcome with ⟨rfl, absent⟩ | ⟨raw, so, rfl, held⟩
  · simp only [load, got]
    exact calm
  have alive := getStateObject_alive got
  simp only [load, got]
  refine calm.put addr ((deleted raw).trans alive) ?_ ?_
  · have settled := held.settled_of_account (change raw) (account raw)
    have balance := congrArg (fun so => so.account.balance) settled
    have own : (t.refreshed addr (change raw)).account.balance = so.account.balance := balance
    rw [own, suicided raw, held.purse, ← held.settled]
    rfl
  · intro absent
    cases mark : t.updatedAccount addr with
    | false => rfl
    | true =>
      have stored := held.marked mark
      rw [absent] at stored
      contradiction

section

variable (loaded : s.updatedAccount addr = true → (s.stateObjects.lookup addr).isSome = true)

include loaded

variable (cfg) in
theorem access_owned : ∃ found t, s.getStateObject cfg addr = (found, t) ∧ Calm cfg s t ∧
      (found = none ∧ Absent cfg t addr ∨ ∃ raw, found = some raw ∧ Owned cfg t addr raw) := by
  obtain ⟨found, t, got, _, _, _, outcome⟩ := access_spec cfg steady addr
  have clear := access_unmarked cfg steady loaded
  have calm : Calm cfg s (s.getStateObject cfg addr).2 := Calm.refl.access addr
  rw [got] at clear calm
  refine ⟨found, t, got, calm, outcome.imp_right ?_⟩
  rintro ⟨raw, so, rfl, held⟩
  exact ⟨raw, rfl, clear, getStateObject_alive got, held.purse⟩

variable (cfg) in
theorem getOrNewStateObject_calm :
    ∃ so t, s.getOrNewStateObject cfg addr = (so, t) ∧ Calm cfg s t ∧ Owned cfg t addr so := by
  obtain ⟨_, t, got, calm, ⟨rfl, absent⟩ | ⟨raw, rfl, owned⟩⟩ := access_owned cfg steady loaded
  · obtain ⟨db, steady', _⟩ := calm.db steady
    have anchored : Anchored cfg t [] t := Anchored.refl (by rw [db]; exact steady')
    obtain ⟨_, again, _, _, absent'⟩ := anchored.getStateObject_absent absent
    have second : Calm cfg s (t.getStateObject cfg addr).2 := calm.access addr
    rw [again] at second
    refine ⟨freshObject cfg, _, ?_, create_calm second absent'⟩
    simp only [getOrNewStateObject, got, createObject, again]
  · exact ⟨raw, t, by simp only [getOrNewStateObject, got], calm, owned⟩

/-- CreateAccount carries the balance over; it would clear a suicide mark. -/
theorem createAccount_calm (unsuicided : (s.purse cfg addr).2 = false) :
    Calm cfg s (s.createAccount cfg addr) := by
  obtain ⟨_, t, got, calm, ⟨rfl, absent⟩ | ⟨raw, rfl, owned⟩⟩ := access_owned cfg steady loaded
  · simp only [createAccount, createObject, got]
    exact (create_calm calm absent).1
  have same := (calm.db steady).2.2 addr
  have suicided : raw.suicided = false := by
    rw [← unsuicided, ← same, owned.purse]
  have appended : Calm cfg s (t.append (.resetObjectChange addr raw)) :=
    owned.journal calm (by simp [JournalEntry.dirtied])
  simp only [createAccount, createObject, got, setStateObject_twice]
  exact ((owned.append _).put appended ((freshObject cfg).setBalance raw.account.balance) rfl rfl
    suicided.symm).1

theorem setNonce_calm (nonce : UInt64) : Calm cfg s (s.setNonce cfg addr nonce) := by
  obtain ⟨so, u, got, calm, owned⟩ := getOrNewStateObject_calm cfg steady loaded
  have appended : Calm cfg s (u.append (.nonceChange addr so.account.sequence)) := by
    refine owned.journal calm fun account dirtied => ?_
    exact (Option.some.inj dirtied).symm
  simp only [CommitStateDB.setNonce, got]
  exact ((owned.append _).put appended (so.setNonce nonce) owned.alive rfl rfl).1

theorem setState_calm (key value : Hash) : Calm cfg s (s.setState cfg addr key value) := by
  obtain ⟨so, u, got, calm, owned⟩ := getOrNewStateObject_calm cfg steady loaded
  obtain ⟨origin, read⟩ := so.getState_eq cfg u.db addr key
  obtain ⟨put, owned'⟩ := owned.put calm { so with originStorage := origin } owned.alive rfl rfl
  simp only [CommitStateDB.setState, got, read]
  split
  · exact put
  have appended : Calm cfg s ((u.setStateObject addr { so with originStorage := origin }).append
      (.storageChange addr key (so.getState cfg u.db addr key).1)) := by
    refine owned'.journal put fun account dirtied => ?_
    exact (Option.some.inj dirtied).symm
  exact ((owned'.append _).put appended
    (StateObject.setState { so with originStorage := origin } key value) owned.alive rfl rfl).1

theorem setCode_calm (code : Option Code) : Calm cfg s (s.setCode cfg addr code) := by
  obtain ⟨so, u, got, calm, owned⟩ := getOrNewStateObject_calm cfg steady loaded
  obtain ⟨held, read⟩ := so.getCode_eq cfg u.db
  obtain ⟨put, owned'⟩ := owned.put calm { so with code := held } owned.alive rfl rfl
  have appended : Calm cfg s ((u.setStateObject addr { so with code := held }).append
      (.codeChange addr (StateObject.codeHash cfg { so with code := held })
        (so.getCode cfg u.db).1)) := by
    refine owned'.journal put fun account dirtied => ?_
    exact (Option.some.inj dirtied).symm
  simp only [CommitStateDB.setCode, got, read]
  exact ((owned'.append _).put appended
    (StateObject.setCode { so with code := held } (cfg.keccak (code.getD [])) code)
      owned.alive rfl rfl).1

end

omit steady in
theorem getState_keeps (so : StateObject) (db : Db) (addr : Address) (key : Hash) :
    (so.getState cfg db addr key).2.account = so.account ∧
      (so.getState cfg db addr key).2.suicided = so.suicided := by
  obtain ⟨_, read⟩ := so.getState_eq cfg db addr key
  rw [read]
  exact ⟨rfl, rfl⟩

omit steady in
theorem getCode_keeps (so : StateObject) (db : Db) :
    (so.getCode cfg db).2.account = so.account ∧ (so.getCode cfg db).2.suicided = so.suicided := by
  obtain ⟨_, read⟩ := so.getCode_eq cfg db
  rw [read]
  exact ⟨rfl, rfl⟩

omit steady in
theorem append_calm (calm : Calm cfg s t) {entry : JournalEntry} (plain : entry.dirtied = none) :
    Calm cfg s (t.append entry) :=
  calm.append fun addr dirtied => by simp [plain] at dirtied

theorem step_calm {op : Op} (plain : op.plain = true)
    (neutral : op.neutral = true) (refreshes : Refreshes s op)
    (unsuicided : ∀ addr, (s.purse cfg addr).2 = false) (done : s.step cfg op = .ok t) :
    Calm cfg s t := by
  have start : Calm cfg s s := .refl
  cases op with
  | setBalance | addBalance | subBalance | suicide => simp [Op.neutral] at neutral
  | snapshot | revertToSnapshot => simp [Op.plain] at plain
  | setNonce addr nonce =>
    cases done
    exact setNonce_calm steady (refreshes addr rfl) nonce
  | setState addr key value =>
    cases done
    exact setState_calm steady (refreshes addr rfl) key value
  | setCode addr code =>
    cases done
    exact setCode_calm steady (refreshes addr rfl) code
  | createAccount addr =>
    cases done
    exact createAccount_calm steady (refreshes addr rfl) (unsuicided addr)
  | addLog | addPreimage | addRefund | subRefund | addAddressToAccessList | addSlotToAccessList =>
    exact step_onSubstate (Calm cfg s) rfl done (fun _ _ calm _ plain => append_calm calm plain)
      (fun _ sub calm => calm.substate sub) start
  | getAccount addr =>
    cases done
    exact load_calm steady (fun _ => rfl) (fun _ => rfl) fun _ => rfl
  | getCode addr =>
    cases done
    exact load_calm steady (fun so => so.deleted_getCode) (fun so => (getCode_keeps so s.db).1)
      fun so => (getCode_keeps so s.db).2
  | getState addr key =>
    cases done
    exact load_calm steady (fun so => so.deleted_getState key)
      (fun so => (getState_keeps so s.db addr key).1)
      fun so => (getState_keeps so s.db addr key).2
  | getCommittedState addr key =>
    cases done
    refine load_calm steady (fun so => so.deleted_getCommittedState key) (fun so => ?_) fun so => ?_
    all_goals
      obtain ⟨_, read⟩ := so.getCommittedState_eq cfg s.db addr key
      rw [read]

end Exchain.Evm
