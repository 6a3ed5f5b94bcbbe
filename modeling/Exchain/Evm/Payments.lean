import Exchain.Evm.Purses

namespace Exchain.Evm

open CommitStateDB

section

variable {cfg : Config} {s t u : CommitStateDB} {addr : Address}

/-- An account gains an amount, which may be negative, and all others stay as they are. -/
structure Paid (cfg : Config) (s t : CommitStateDB) (addr : Address) (amount : Int) : Prop where
  db : t.db = s.db
  steady : Steady s.db.kv.accounts t
  own : ((t.purse cfg addr).1 : Int) = (s.purse cfg addr).1 + amount
  others : ∀ other, other ≠ addr → (t.purse cfg other).1 = (s.purse cfg other).1
  suicided : ∀ other, (t.purse cfg other).2 = (s.purse cfg other).2
  unhidden : Unhidden cfg s → Unhidden cfg t
  counted : Counted s → Counted t
  journaled : amount ≠ 0 → ∃ entry ∈ t.journal.entries, entry.dirtied = some addr

theorem Unhidden.put (unhidden : Unhidden cfg s) {so : StateObject} (alive : so.deleted = false) :
    Unhidden cfg (s.setStateObject addr so) := by
  intro other hidden
  by_cases same : other = addr
  · rw [cell_setStateObject, if_pos same, viewAt, if_neg (by simp [alive])] at hidden
    contradiction
  · rw [cell_setStateObject, if_neg same] at hidden
    exact unhidden other hidden

theorem Calm.unhidden (calm : Calm cfg s t) (steady : Steady s.db.kv.accounts s)
    (unhidden : Unhidden cfg s) : Unhidden cfg t := by
  induction calm with
  | refl => exact unhidden
  | @access t addr before ih =>
    obtain ⟨db, steady', _⟩ := before.db steady
    rw [← db] at steady'
    have start : Anchored cfg t [] t := Anchored.refl steady'
    have faithful : LoadsFaithfully cfg t [] t addr := fun _ _ _ stored => stored
    obtain ⟨_, _, got, anchored, same, _⟩ := start.getStateObject faithful
    rw [got]
    intro other hidden
    rw [same.db] at hidden ⊢
    exact ih other ((anchored.views other).symm.trans hidden)
  | put _ _ alive _ _ ih => exact ih.put alive
  | append _ _ ih => exact ih
  | dirty _ _ _ ih => exact ih
  | substate _ _ ih => exact ih

theorem Calm.paid (calm : Calm cfg s t) (steady : Steady s.db.kv.accounts s) (addr : Address) :
    Paid cfg s t addr 0 := by
  obtain ⟨db, steady', purses⟩ := calm.db steady
  refine ⟨db, steady', ?_, fun other _ => ?_, fun other => ?_, calm.unhidden steady,
    fun counted => counted.calm calm steady, fun nonzero => absurd rfl nonzero⟩
  · rw [purses, Int.add_zero]
  · rw [purses]
  · rw [purses]

variable (steady : Steady s.db.kv.accounts s)

include steady

theorem setObjectBalance_paid (calm : Calm cfg s u)
    {so : StateObject} (owned : Owned cfg u addr so) {amount : Int}
    (done : u.setObjectBalance addr so (so.account.balance + amount) = .ok t) :
    Paid cfg s t addr amount := by
  obtain ⟨db, _, purses⟩ := calm.db steady
  simp only [setObjectBalance] at done
  split at done
  · contradiction
  cases done
  let v := u.append (.balanceChange addr so.account.balance)
  let paid := so.setBalance (so.account.balance + amount).toNat
  have appended : Calm cfg s v := by
    refine owned.journal calm fun account dirtied => ?_
    exact (Option.some.inj dirtied).symm
  have clear : v.updatedAccount addr = false := owned.unmarked
  have here : (v.setStateObject addr paid).purse cfg addr = (paid.account.balance, so.suicided) := by
    rw [purse_setStateObject v addr addr paid owned.alive, if_pos rfl, refreshed_of_unmarked clear]
    rfl
  have elsewhere (other : Address) (differ : other ≠ addr) :
      (v.setStateObject addr paid).purse cfg other = s.purse cfg other := by
    rw [purse_setStateObject v addr other paid owned.alive, if_neg differ]
    exact purses other
  have before : s.purse cfg addr = (so.account.balance, so.suicided) := by
    rw [← purses, owned.purse]
  refine ⟨db, ?_, ?_, fun other differ => by rw [elsewhere other differ], fun other => ?_,
    fun unhidden => ?_, fun counted => ?_, fun _ => ⟨_, List.mem_cons_self, rfl⟩⟩
  · exact (appended.db steady).2.1.setStateObject fun _ mark => by simp [clear] at mark
  · have total : (paid.account.balance : Int) = so.account.balance + amount :=
      Int.toNat_of_nonneg (by omega)
    rw [here, before]
    exact total
  · by_cases same : other = addr
    · rw [same, here, before]
    · rw [elsewhere other same]
  · exact (appended.unhidden steady unhidden).put owned.alive
  · have after := counted.calm appended steady
    exact ⟨after.covers, after.unmarked⟩

variable {amount : Int}
  (loaded : s.updatedAccount addr = true → (s.stateObjects.lookup addr).isSome = true)

include loaded

theorem addBalance_paid (done : s.addBalance cfg addr amount = .ok t) : Paid cfg s t addr amount := by
  obtain ⟨so, u, got, calm, owned⟩ := getOrNewStateObject_calm cfg steady loaded
  simp only [CommitStateDB.addBalance, got] at done
  split at done
  · rename_i zero
    cases done
    have touched : Calm cfg s (if so.empty cfg then u.touch addr else u) := by
      unfold touch
      have appended : Calm cfg s (u.append (.touchChange addr)) := by
        refine owned.journal calm fun account dirtied => ?_
        exact (Option.some.inj dirtied).symm
      repeat' split
      · exact appended.dirty addr owned.unmarked
      · exact appended
      · exact calm
    rw [zero]
    exact touched.paid steady addr
  · exact setObjectBalance_paid steady calm owned done

theorem subBalance_paid (done : s.subBalance cfg addr amount = .ok t) : Paid cfg s t addr (-amount) := by
  obtain ⟨_, _, got, calm, owned⟩ := getOrNewStateObject_calm cfg steady loaded
  simp only [CommitStateDB.subBalance, got] at done
  split at done
  · rename_i zero
    cases done
    rw [zero]
    exact calm.paid steady addr
  · exact setObjectBalance_paid steady calm owned done

end

variable {cfg : Config} {s t : CommitStateDB}

theorem getStateObject_marks (s : CommitStateDB) (addr other : Address)
    (mark : (s.getStateObject cfg addr).2.updatedAccount other = true) :
    s.updatedAccount other = true := by
  have dropped (given : Function.update s.updatedAccount addr false other = true) :
      s.updatedAccount other = true := by
    by_cases same : other = addr
    · simp [same] at given
    · simpa [same] using given
  unfold CommitStateDB.getStateObject getDeletedStateObject at mark
  simp only at mark
  repeat' split at mark
  · exact dropped mark
  · exact dropped mark
  all_goals exact mark

theorem Moves.marks (moves : Moves cfg s t) (addr : Address) (mark : t.updatedAccount addr = true) :
    s.updatedAccount addr = true := by
  induction moves with
  | refl => exact mark
  | getStateObject other _ ih => exact ih (getStateObject_marks _ other addr mark)
  | append _ _ ih => exact ih mark
  | setStateObject | dirty | substate =>
    rename_i ih
    exact ih mark

variable {entries : List JournalEntry}

theorem unwind_marks (done : unwind cfg entries s = .ok t)
    (addr : Address) (mark : t.updatedAccount addr = true) : s.updatedAccount addr = true := by
  have keeps : UndoKeeps cfg (fun _ => True)
      (fun t => t.updatedAccount addr = true → s.updatedAccount addr = true) :=
    ⟨fun _ _ => trivial, fun t other before mark => before (getStateObject_marks t other addr mark),
      fun _ _ _ before _ => before, fun _ _ => id, fun _ _ => id, fun _ _ => id, fun _ _ => id⟩
  exact keeps.unwind id (fun _ _ _ => trivial) done mark

theorem step_marks {op : Op} (done : s.step cfg op = .ok t) (addr : Address)
    (mark : t.updatedAccount addr = true) : s.updatedAccount addr = true := by
  cases plain : op.plain with
  | true => exact (step_moves plain done).marks addr mark
  | false =>
    cases op with
    | snapshot =>
      cases done
      exact mark
    | revertToSnapshot =>
      obtain ⟨_, _, _, _, unwound, rfl⟩ := revertToSnapshot_eq_ok done
      exact unwind_marks unwound addr mark
    | _ => simp [Op.plain] at plain

theorem revert_journal {entry : JournalEntry} (done : entry.revert cfg s = .ok t) :
    t.journal = s.journal := by
  have access (addr : Address) := (@getStateObject_journal cfg s addr).1
  cases entry with
  | balanceChange | nonceChange | codeChange | storageChange =>
    simp only [JournalEntry.revert, modifyObject] at done
    split at done
    · rename_i got
      cases done
      rw [← access, got]
      rfl
    · contradiction
  | suicideChange =>
    simp only [JournalEntry.revert] at done
    split at done
    all_goals
      rename_i got
      cases done
      rw [← access, got]
    rfl
  | accessListAddSlotChange =>
    simp only [JournalEntry.revert] at done
    split at done
    · cases done
      rfl
    · contradiction
  | _ =>
    cases done
    rfl

/-- How often the journal calls an account dirty. -/
def Journal.count (j : Journal) (addr : Address) : Nat := (j.dirties.lookup addr).getD 0

theorem Journal.undirty_spec (j : Journal) (entry : JournalEntry) (addr : Address) :
    (j.undirty entry).count addr = j.count addr - (if entry.dirtied == some addr then 1 else 0) ∧
      (addr ∈ (j.undirty entry).dirties → addr ∈ j.dirties) := by
  have member (dirties : AssocMap Address Nat) : addr ∈ dirties ↔ (dirties.lookup addr).isSome = true := by
    rw [AList.lookup_isSome]
  simp only [member]
  unfold undirty count
  cases entry.dirtied with
  | none => simp
  | some account =>
    by_cases same : addr = account
    · subst same
      by_cases last : (j.dirties.lookup addr).getD 0 - 1 = 0
      · simp [last]
      have counts : (j.dirties.lookup addr).isSome = true := by
        cases looked : j.dirties.lookup addr with
        | none => simp [looked] at last
        | some n => rfl
      simp [last, counts]
    · have other : (some account == some addr) = false := by simpa using Ne.symm same
      simp only [other]
      split
      all_goals simp [same]

theorem unwind_dirties (done : unwind cfg entries s = .ok t) (addr : Address) :
    t.journal.count addr =
        s.journal.count addr - entries.countP (fun entry => entry.dirtied == some addr) ∧
      (addr ∈ t.journal.dirties → addr ∈ s.journal.dirties) := by
  induction entries generalizing s with
  | nil =>
    cases done
    exact ⟨rfl, id⟩
  | cons entry older ih =>
    obtain ⟨_, reverted, done⟩ := Fallible.bind_eq_ok.mp done
    obtain ⟨count, dirty⟩ := ih done
    obtain ⟨_, fewer⟩ := s.journal.undirty_spec entry addr
    simp only [revert_journal reverted] at count dirty
    refine ⟨?_, fun inside => fewer (dirty inside)⟩
    rw [count, List.countP_cons]
    omega

theorem Counted.revertToSnapshot (counted : Counted s) {revID : Nat}
    (done : s.revertToSnapshot cfg revID = .ok t) : Counted t := by
  obtain ⟨revision, _, u, _, unwound, rfl⟩ := revertToSnapshot_eq_ok done
  refine ⟨fun addr => ?_, fun addr inside => ?_⟩
  · have left := (unwind_dirties unwound addr).1
    have before := counted.covers addr
    rw [← List.take_append_drop (s.journal.entries.length - revision.length) s.journal.entries,
      List.countP_append] at before
    unfold Journal.count at left
    simp only
    omega
  · have before := counted.unmarked addr ((unwind_dirties unwound addr).2 inside)
    cases mark : u.updatedAccount addr with
    | false => rfl
    | true => rw [unwind_marks unwound addr mark] at before; contradiction

end Exchain.Evm
