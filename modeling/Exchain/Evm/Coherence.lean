import Exchain.Evm.Sourced

namespace Exchain.Evm

open CommitStateDB List AList

/-- An entry that neither replaces an object nor puts a slot back. -/
def JournalEntry.light : JournalEntry → Bool
  | storageChange _ _ _ | resetObjectChange _ _ | createObjectChange _ => false
  | _ => true

namespace Coherent

variable {cfg : Config} {codes : Set Code} {start : Db} {s t : CommitStateDB}
  {entries : List JournalEntry} {addr : Address} {so : StateObject}
  (coherent : Coherent cfg codes start entries s)

include coherent

theorem setStateObject (sourced : Sourced cfg codes start addr so)
    (recalls : Recalls (s.stateObjects.lookup addr) (some so)) :
    Coherent cfg codes start entries (s.setStateObject addr so) := by
  refine ⟨coherent.db, coherent.unmarked, forall_insert sourced coherent.objects,
    coherent.journaled, fun other => ?_⟩
  · rw [CommitStateDB.setStateObject, lookup_insert_if]
    split
    · rename_i same
      subst same
      exact (coherent.remembered other).mono recalls
    · exact coherent.remembered other

theorem update (cached : s.stateObjects.lookup addr = some so) {other : StateObject}
    (sourced : Sourced cfg codes start addr other)
    (more : ∀ key, (so.originStorage key).isSome = true → (other.originStorage key).isSome = true) :
    Coherent cfg codes start entries (s.setStateObject addr other) := by
  refine coherent.setStateObject sourced fun before same => ?_
  cases cached.symm.trans same
  exact ⟨other, rfl, more⟩

theorem getStateObject (coded : start.kv.Coded cfg codes) (addr : Address) :
    ∃ found t, s.getStateObject cfg addr = (found, t) ∧ t.journal = s.journal ∧
      Coherent cfg codes start entries t ∧ t.stateObjects.lookup addr = found ∧
      (found = none → t = s) := by
  cases cached : s.stateObjects.lookup addr with
  | some so =>
    have sourced := coherent.objects addr so cached
    refine ⟨some so, s, ?_, rfl, coherent, cached, fun _ => rfl⟩
    simp [CommitStateDB.getStateObject, getDeletedStateObject, cached, coherent.unmarked, sourced.alive]
  | none =>
    cases stored : s.db.kv.accounts addr with
    | none =>
      refine ⟨none, s, ?_, rfl, coherent, cached, fun _ => rfl⟩
      simp [CommitStateDB.getStateObject, getDeletedStateObject, cached, stored]
    | some account =>
      have sourced : Sourced cfg codes start addr (loadObject cfg s.db addr account) := by
        rw [coherent.db] at stored ⊢
        exact .load coded stored
      refine ⟨some (loadObject cfg s.db addr account),
        s.setStateObject addr (loadObject cfg s.db addr account), ?_, rfl,
        coherent.setStateObject sourced (cached ▸ Recalls.none _), ?_, by simp⟩
      · simp [CommitStateDB.getStateObject, getDeletedStateObject, cached, stored, sourced.alive]
      · simp [CommitStateDB.setStateObject]

theorem append (entry : JournalEntry)
    (light : entry.light = true) (sourced : entry.Sourced cfg codes start) :
    Coherent cfg codes start (entry :: entries) (s.append entry) := by
  refine ⟨coherent.db, coherent.unmarked, coherent.objects, fun other inside => ?_, fun addr => ?_⟩
  · rcases mem_cons.mp inside with rfl | older
    · exact sourced
    · exact coherent.journaled other older
  · have before := coherent.remembered addr
    cases entry with
    | storageChange | resetObjectChange | createObjectChange => simp [JournalEntry.light] at light
    | _ => exact before

theorem substate (sub : Substate) : Coherent cfg codes start entries { s with substate := sub } :=
  ⟨coherent.db, coherent.unmarked, coherent.objects, coherent.journaled, coherent.remembered⟩

theorem journal (journal : Journal) (revisions : List Snapshots.Mark) :
    Coherent cfg codes start entries { s with journal := journal, validRevisions := revisions } :=
  ⟨coherent.db, coherent.unmarked, coherent.objects, coherent.journaled, coherent.remembered⟩

theorem change (cached : s.stateObjects.lookup addr = some so) (entry : JournalEntry)
    (light : entry.light = true) (sourced : entry.Sourced cfg codes start) {other : StateObject}
    (changed : Sourced cfg codes start addr other)
    (origin : other.originStorage = so.originStorage) :
    Coherent cfg codes start (entry :: entries) ((s.append entry).setStateObject addr other) := by
  exact (coherent.append entry light sourced).update cached changed fun key known => origin ▸ known

/-- An entry that brings back what was cached under the address, and a new object there. -/
theorem replace {entry : JournalEntry}
    (restores : ∀ other cell, Remembered other cell (entry :: entries) =
      Remembered other (if other = addr then s.stateObjects.lookup addr else cell) entries)
    (journaled : entry.Sourced cfg codes start) (sourced : Sourced cfg codes start addr so) :
    Coherent cfg codes start (entry :: entries) ((s.append entry).setStateObject addr so) := by
  refine ⟨coherent.db, coherent.unmarked, forall_insert sourced coherent.objects,
    fun other inside => ?_, fun other => ?_⟩
  · rcases mem_cons.mp inside with rfl | older
    · exact journaled
    · exact coherent.journaled other older
  · rw [restores]
    have before := coherent.remembered other
    split
    · rename_i same
      rw [← same]
      exact before
    · rename_i differ
      simp only [CommitStateDB.setStateObject, lookup_insert_if, differ]
      exact before

theorem create (uncached : s.stateObjects.lookup addr = none) (sourced : Sourced cfg codes start addr so) :
    Coherent cfg codes start (.createObjectChange addr :: entries)
      ((s.append (.createObjectChange addr)).setStateObject addr so) :=
  coherent.replace (fun other cell => by rw [uncached]; rfl) trivial sourced

theorem reset {prev : StateObject}
    (cached : s.stateObjects.lookup addr = some prev) (sourced : Sourced cfg codes start addr so) :
    Coherent cfg codes start (.resetObjectChange addr prev :: entries)
      ((s.append (.resetObjectChange addr prev)).setStateObject addr so) :=
  coherent.replace (fun other cell => by rw [cached]; rfl) (coherent.objects addr prev cached) sourced

theorem store (cached : s.stateObjects.lookup addr = some so) {key : Hash}
    (known : (so.originStorage key).isSome = true) (prev value : Hash) :
    Coherent cfg codes start (.storageChange addr key prev :: entries)
      ((s.append (.storageChange addr key prev)).setStateObject addr (so.setState key value)) := by
  have sourced := coherent.objects addr so cached
  have appended : Coherent cfg codes start (.storageChange addr key prev :: entries)
      (s.append (.storageChange addr key prev)) := by
    refine ⟨coherent.db, coherent.unmarked, coherent.objects, fun other inside => ?_, fun other => ?_⟩
    · rcases mem_cons.mp inside with rfl | older
      · trivial
      · exact coherent.journaled other older
    · exact ⟨fun same => ⟨so, same ▸ cached, known⟩, coherent.remembered other⟩
  exact appended.update cached (sourced.setState known value) fun _ => id

end Coherent

/-- The state and its own journal. -/
abbrev Coheres (cfg : Config) (codes : Set Code) (start : Db) (s : CommitStateDB) : Prop :=
  Coherent cfg codes start s.journal.entries s

def Op.codesIn (codes : Set Code) : Op → Prop
  | .setCode _ code => code.getD [] ∈ codes
  | _ => True

section

variable {cfg : Config} {codes : Set Code} {start : Db} {s t : CommitStateDB}
  (coherent : Coheres cfg codes start s)

include coherent

theorem Coherent.getOrNewStateObject (coded : start.kv.Coded cfg codes) (addr : Address) :
    ∃ so t, s.getOrNewStateObject cfg addr = (so, t) ∧
      Coheres cfg codes start t ∧ t.stateObjects.lookup addr = some so := by
  obtain ⟨found, u, got, journal, after, cached, absent⟩ := coherent.getStateObject coded addr
  cases found with
  | some so =>
    rw [← journal] at after
    exact ⟨so, u, by simp only [CommitStateDB.getOrNewStateObject, got], after, cached⟩
  | none =>
    obtain rfl := absent rfl
    refine ⟨freshObject cfg,
      (u.append (.createObjectChange addr)).setStateObject addr (freshObject cfg), ?_, ?_, ?_⟩
    · simp only [CommitStateDB.getOrNewStateObject, got, createObject]
    · have sourced : Sourced cfg codes start addr (freshObject cfg) := .fresh
      exact after.create cached sourced
    · simp [CommitStateDB.setStateObject]

theorem Coherent.setObjectBalance {addr : Address} {so : StateObject} (cached : s.stateObjects.lookup addr = some so)
    {amount : Int} (done : s.setObjectBalance addr so amount = .ok t) :
    Coheres cfg codes start t := by
  simp only [CommitStateDB.setObjectBalance] at done
  split at done
  · contradiction
  cases done
  have sourced := coherent.objects addr so cached
  have changed : Sourced cfg codes start addr (so.setBalance amount.toNat) :=
    sourced.withAccount rfl rfl
  exact coherent.change cached (.balanceChange addr so.account.balance) rfl trivial changed rfl

theorem Coherent.touch (addr : Address) :
    Coheres cfg codes start (s.touch addr) := by
  have appended : Coheres cfg codes start (s.append (.touchChange addr)) := coherent.append _ rfl trivial
  unfold CommitStateDB.touch
  split
  · exact appended.journal _ _
  · exact appended

variable (coded : start.kv.Coded cfg codes)

include coded

theorem Coherent.load {addr : Address} {read : StateObject → StateObject}
    (sourced : ∀ so, Sourced cfg codes start addr so → Sourced cfg codes start addr (read so) ∧
      ∀ key, (so.originStorage key).isSome = true → ((read so).originStorage key).isSome = true) :
    Coheres cfg codes start (s.load cfg addr read) := by
  obtain ⟨found, _, got, journal, after, cached, _⟩ := coherent.getStateObject coded addr
  rw [← journal] at after
  simp only [CommitStateDB.load, got]
  cases found with
  | none => exact after
  | some so =>
    obtain ⟨changed, more⟩ := sourced so (after.objects addr so cached)
    exact after.update cached changed more

theorem Coherent.setState (kv : cfg.higherThanMars = false) (addr : Address) (key value : Hash) :
    Coheres cfg codes start (s.setState cfg addr key value) := by
  obtain ⟨so, u, got, after, cached⟩ := coherent.getOrNewStateObject coded addr
  have sourced := after.objects addr so cached
  obtain ⟨read, known, more⟩ := sourced.getState kv key
  have put : Coherent cfg codes start u.journal.entries
      (u.setStateObject addr (so.getState cfg u.db addr key).2) := by
    rw [after.db]
    exact after.update cached read more
  simp only [CommitStateDB.setState, got]
  split
  · exact put
  refine put.store ?_ ?_ _ _
  · simp [CommitStateDB.setStateObject]
  · rw [after.db]
    exact known

theorem Coherent.setCode (kv : cfg.higherThanMars = false) (nil : [] ∈ codes)
    (addr : Address) {code : Option Code} (known : code.getD [] ∈ codes) :
    Coheres cfg codes start (s.setCode cfg addr code) := by
  obtain ⟨so, u, got, after, cached⟩ := coherent.getOrNewStateObject coded addr
  have sourced := after.objects addr so cached
  obtain ⟨read, prevKnown, prevHash⟩ := sourced.getCode coded kv nil
  obtain ⟨_, loaded⟩ := so.getCode_eq cfg start
  have put : Coherent cfg codes start u.journal.entries
      (u.setStateObject addr (so.getCode cfg start).2) := by
    exact after.update cached read fun key known => by rw [loaded]; exact known
  have cached' : (u.setStateObject addr (so.getCode cfg start).2).stateObjects.lookup addr =
      some (so.getCode cfg start).2 := by
    simp [CommitStateDB.setStateObject]
  have hash : (so.getCode cfg start).2.codeHash cfg = so.codeHash cfg := by
    rw [loaded]
    rfl
  simp only [CommitStateDB.setCode, got, after.db]
  exact put.change cached' (.codeChange addr _ _) rfl ⟨prevKnown, prevHash.trans hash.symm⟩
    (read.setCode known rfl) rfl

theorem Coherent.createAccount (addr : Address) :
    Coheres cfg codes start (s.createAccount cfg addr) := by
  obtain ⟨found, _, got, journal, after, cached, -⟩ := coherent.getStateObject coded addr
  rw [← journal] at after
  have sourced : Sourced cfg codes start addr (freshObject cfg) := .fresh
  cases found with
  | none =>
    simp only [CommitStateDB.createAccount, createObject, got]
    exact after.create cached sourced
  | some prev =>
    simp only [CommitStateDB.createAccount, createObject, got, setStateObject_twice]
    have changed : Sourced cfg codes start addr
        ((freshObject cfg).setBalance prev.account.balance) := sourced.withAccount rfl rfl
    exact after.reset cached changed

theorem Coherent.suicide (addr : Address) :
    Coheres cfg codes start (s.suicide cfg addr) := by
  obtain ⟨found, u, got, journal, after, cached, -⟩ := coherent.getStateObject coded addr
  rw [← journal] at after
  cases found with
  | none =>
    simp only [CommitStateDB.suicide, got]
    exact after
  | some so =>
    have changed : Sourced cfg codes start addr ((so.setSuicided true).setBalance 0) :=
      (after.objects addr so cached).withAccount rfl rfl
    have appended : Coheres cfg codes start (u.append (.suicideChange addr so.suicided so.account.balance)) :=
      after.append _ rfl trivial
    simp only [CommitStateDB.suicide, got]
    exact appended.change cached (.balanceChange addr so.account.balance) rfl trivial changed rfl

theorem Coherent.plain (kv : cfg.higherThanMars = false) (nil : [] ∈ codes) {op : Op}
    (plain : op.plain = true) (known : op.codesIn codes) (done : s.step cfg op = .ok t) :
    Coheres cfg codes start t := by
  have accounted (addr : Address) := coherent.getOrNewStateObject coded addr
  cases op with
  | snapshot | revertToSnapshot => simp [Op.plain] at plain
  | setBalance addr =>
    obtain ⟨_, _, got, after, cached⟩ := accounted addr
    simp only [step, CommitStateDB.setBalance, got] at done
    exact after.setObjectBalance cached done
  | addBalance addr =>
    obtain ⟨_, _, got, after, cached⟩ := accounted addr
    simp only [step, CommitStateDB.addBalance, got] at done
    split at done
    · cases done
      split
      · exact after.touch addr
      · exact after
    · exact after.setObjectBalance cached done
  | subBalance addr =>
    obtain ⟨_, _, got, after, cached⟩ := accounted addr
    simp only [step, CommitStateDB.subBalance, got] at done
    split at done
    · cases done
      exact after
    · exact after.setObjectBalance cached done
  | setNonce addr nonce =>
    cases done
    obtain ⟨so, _, got, after, cached⟩ := accounted addr
    have changed : Sourced cfg codes start addr (so.setNonce nonce) :=
      (after.objects addr so cached).withAccount rfl rfl
    simp only [CommitStateDB.setNonce, got]
    exact after.change cached (.nonceChange addr so.account.sequence) rfl trivial changed rfl
  | setState addr key value =>
    cases done
    exact coherent.setState coded kv addr key value
  | setCode addr code =>
    cases done
    exact coherent.setCode coded kv nil addr known
  | createAccount addr =>
    cases done
    exact coherent.createAccount coded addr
  | suicide addr =>
    cases done
    exact coherent.suicide coded addr
  | addLog | addPreimage | addRefund | subRefund | addAddressToAccessList | addSlotToAccessList =>
    refine step_onSubstate (Coheres cfg codes start) rfl done
      (fun u entry held own _ => ?_) (fun _ sub held => held.substate sub) coherent
    rw [Coheres, CommitStateDB.append, Journal.entries_append]
    apply held.append entry
    all_goals
      cases entry <;> simp_all [JournalEntry.onSubstate, JournalEntry.light, JournalEntry.Sourced]
  | getAccount addr =>
    cases done
    exact coherent.load coded fun so sourced => ⟨sourced, fun _ => id⟩
  | getCode addr =>
    cases done
    rw [coherent.db]
    refine coherent.load coded fun so sourced => ⟨(sourced.getCode coded kv nil).1, fun key known => ?_⟩
    obtain ⟨_, loaded⟩ := so.getCode_eq cfg start
    rw [loaded]
    exact known
  | getState addr key =>
    cases done
    rw [coherent.db]
    refine coherent.load coded fun so sourced => ?_
    obtain ⟨read, -, more⟩ := sourced.getState kv key
    exact ⟨read, more⟩
  | getCommittedState addr key =>
    cases done
    rw [coherent.db]
    refine coherent.load coded fun so sourced => ?_
    obtain ⟨read, -, more⟩ := sourced.getCommittedState kv key
    exact ⟨read, more⟩

end

variable {cfg : Config} {codes : Set Code} {start : Db} {s t : CommitStateDB} {entry : JournalEntry}
  {older : List JournalEntry}

theorem Coherent.tail (coherent : Coherent cfg codes start (entry :: older) s)
    (light : entry.light = true) : Coherent cfg codes start older s := by
  refine ⟨coherent.db, coherent.unmarked, coherent.objects,
    fun other inside => coherent.journaled other (mem_cons_of_mem _ inside), fun addr => ?_⟩
  have before := coherent.remembered addr
  cases entry with
  | storageChange | resetObjectChange | createObjectChange => simp [JournalEntry.light] at light
  | _ => exact before

theorem Coherent.modifyObject (coherent : Coherent cfg codes start older s)
    (coded : start.kv.Coded cfg codes) {addr : Address} {change : StateObject → StateObject}
    (done : s.modifyObject cfg addr change = .ok t)
    (sourced : ∀ so, Sourced cfg codes start addr so → Sourced cfg codes start addr (change so))
    (origin : ∀ so, (change so).originStorage = so.originStorage) : Coherent cfg codes start older t := by
  obtain ⟨found, _, got, -, after, cached, -⟩ := coherent.getStateObject coded addr
  simp only [CommitStateDB.modifyObject, got] at done
  cases found with
  | none => contradiction
  | some so =>
    cases done
    exact after.update cached (sourced so (after.objects addr so cached))
      fun key known => by rw [origin]; exact known

theorem Coherent.revert (coherent : Coherent cfg codes start (entry :: older) s)
    (coded : start.kv.Coded cfg codes) (done : entry.revert cfg s = .ok t) :
    Coherent cfg codes start older t := by
  have journaled := coherent.journaled entry mem_cons_self
  have others := fun other inside => coherent.journaled other (mem_cons_of_mem entry inside)
  cases entry with
  | balanceChange | nonceChange =>
    exact (coherent.tail rfl).modifyObject coded done (fun so sourced => sourced.withAccount rfl rfl)
      fun _ => rfl
  | codeChange =>
    exact (coherent.tail rfl).modifyObject coded done
      (fun so sourced => sourced.setCode journaled.1 journaled.2) fun _ => rfl
  | storageChange account key prevValue =>
    obtain ⟨so, cached, known⟩ := (coherent.remembered account).1 rfl
    have rest : Coherent cfg codes start older s :=
      ⟨coherent.db, coherent.unmarked, coherent.objects, others,
        fun addr => (coherent.remembered addr).2⟩
    have got : s.getStateObject cfg account = (some so, s) := by
      have alive := (coherent.objects account so cached).alive
      simp [CommitStateDB.getStateObject, getDeletedStateObject, cached, coherent.unmarked, alive]
    simp only [JournalEntry.revert, CommitStateDB.modifyObject, got] at done
    cases done
    exact rest.update cached ((rest.objects account so cached).setState known prevValue) fun _ => id
  | suicideChange account prev prevBalance =>
    obtain ⟨found, _, got, -, after, cached, -⟩ := (coherent.tail rfl).getStateObject coded account
    simp only [JournalEntry.revert, got] at done
    cases found with
    | none => exact Except.ok.inj done ▸ after
    | some so =>
      cases done
      have sourced : Sourced cfg codes start account ((so.setSuicided prev).setBalance prevBalance) :=
        (after.objects account so cached).withAccount rfl rfl
      exact after.update cached sourced fun _ => id
  | createObjectChange =>
    cases done
    refine ⟨coherent.db, coherent.unmarked, fun addr so cached => ?_, others, fun addr => ?_⟩
    · exact coherent.objects addr so (lookup_erase_eq_some.mp cached).2
    · have before := coherent.remembered addr
      rw [lookup_erase_if]
      exact before
  | resetObjectChange =>
    cases done
    refine ⟨coherent.db, coherent.unmarked, forall_insert journaled coherent.objects, others,
      fun addr => ?_⟩
    · have before := coherent.remembered addr
      rw [CommitStateDB.setStateObject, lookup_insert_if]
      exact before
  | cmChange sets => exact journaled.elim
  | touchChange =>
    cases done
    exact coherent.tail rfl
  | accessListAddSlotChange =>
    simp only [JournalEntry.revert] at done
    split at done
    · cases done
      exact (coherent.tail rfl).substate _
    · contradiction
  | refundChange | addLogChange | addPreimageChange | accessListAddAccountChange =>
    cases done
    exact (coherent.tail rfl).substate _

theorem Coherent.unwind {newer : List JournalEntry}
    (coherent : Coherent cfg codes start (newer ++ older) s) (coded : start.kv.Coded cfg codes)
    (done : unwind cfg newer s = .ok t) : Coherent cfg codes start older t := by
  induction newer generalizing s with
  | nil => exact Except.ok.inj done ▸ coherent
  | cons _ _ ih =>
    obtain ⟨_, reverted, done⟩ := Fallible.bind_eq_ok.mp done
    exact ih ((coherent.revert coded reverted).journal _ _) done

theorem Coherent.step (coherent : Coheres cfg codes start s)
    (coded : start.kv.Coded cfg codes) (kv : cfg.higherThanMars = false) (nil : [] ∈ codes) {op : Op}
    (known : op.codesIn codes) (done : s.step cfg op = .ok t) :
    Coheres cfg codes start t := by
  cases plain : op.plain with
  | true => exact coherent.plain coded kv nil plain known done
  | false =>
    cases op with
    | snapshot =>
      cases done
      exact ⟨coherent.db, coherent.unmarked, coherent.objects, coherent.journaled,
        coherent.remembered⟩
    | revertToSnapshot =>
      obtain ⟨revision, _, _, _, unwound, rfl⟩ := revertToSnapshot_eq_ok done
      rw [Coheres, ← take_append_drop (s.journal.entries.length - revision.length)
        s.journal.entries] at coherent
      exact (coherent.unwind coded unwound).journal _ _
    | _ => simp [Op.plain] at plain

/-- A transaction starts with nothing cached. -/
theorem Coherent.run (coded : start.kv.Coded cfg codes) (kv : cfg.higherThanMars = false)
    (nil : [] ∈ codes) {thash bhash : Hash} {txIndex : Nat} {ops : List Op}
    (known : ∀ op ∈ ops, op.codesIn codes)
    (done : (newCommitStateDB start thash bhash txIndex).run cfg ops = .ok t) :
    Coheres cfg codes start t := by
  have guarded : PartialRun.Guarded (CommitStateDB.step cfg) (fun _ op => op.codesIn codes)
      (newCommitStateDB start thash bhash txIndex) ops :=
    PartialRun.guarded_of_mem fun op inside _ => known op inside
  have kept : ∀ s t op, Coheres cfg codes start s → op.codesIn codes →
      s.step cfg op = .ok t → Coheres cfg codes start t :=
    fun s t op coherent known done => coherent.step coded kv nil known done
  refine @PartialRun.Guarded.keeps _ _ _ _ _ (Coheres cfg codes start)
    kept _ t ops guarded ?_ done
  refine ⟨rfl, fun _ => rfl, fun addr so cached => ?_, fun entry inside => ?_, fun _ => trivial⟩
  · simp [newCommitStateDB] at cached
  · simp [newCommitStateDB] at inside

end Exchain.Evm
