import Exchain.Evm.Bridge

namespace Exchain.Evm

open CommitStateDB

/-- Nothing is marked as updated from outside, and no cached object is a deleted one. -/
structure Lively (s : CommitStateDB) : Prop where
  unmarked : ∀ addr, s.updatedAccount addr = false
  cached : ∀ addr so, s.stateObjects.lookup addr = some so → so.deleted = false

/-- The states before Mars: the objects in the journal are not deleted ones either, and the
snapshots are stacked. -/
structure Intact (s : CommitStateDB) : Prop where
  lively : Lively s
  journaled : ∀ addr prev, .resetObjectChange addr prev ∈ s.journal.entries → prev.deleted = false
  stacked : s.Stacked

section Intact

variable {cfg : Config} {s t : CommitStateDB}

namespace Lively

variable (lively : Lively s)

include lively

theorem setStateObject {addr : Address} {so : StateObject}
    (alive : so.deleted = false) : Lively (s.setStateObject addr so) :=
  ⟨lively.unmarked, AList.forall_insert alive lively.cached⟩

theorem getStateObject (addr : Address) : Lively (s.getStateObject cfg addr).2 := by
  simp only [CommitStateDB.getStateObject, getDeletedStateObject, lively.unmarked]
  repeat' split
  · contradiction
  · contradiction
  · exact lively
  · exact lively
  · exact lively.setStateObject rfl

theorem erase (addr : Address) (journal : Journal) :
    Lively { s with stateObjects := s.stateObjects.erase addr, journal := journal } :=
  ⟨lively.unmarked, fun other found cached =>
    lively.cached other found (AList.lookup_erase_eq_some.mp cached).2⟩

theorem unwind {entries : List JournalEntry}
    (resets : ∀ account prev, .resetObjectChange account prev ∈ entries → prev.deleted = false)
    (done : unwind cfg entries s = .ok t) : Lively t := by
  have keeps : UndoKeeps cfg (fun so => so.deleted = false) Lively :=
    ⟨fun _ => id, fun _ addr lively => lively.getStateObject addr,
      fun _ _ _ lively alive => lively.setStateObject alive, fun s addr lively => lively.erase addr _,
      fun _ _ lively => ⟨lively.unmarked, lively.cached⟩,
      fun _ _ lively => ⟨lively.unmarked, lively.cached⟩,
      fun _ _ lively => ⟨lively.unmarked, lively.cached⟩⟩
  exact keeps.unwind lively resets done

end Lively

namespace Intact

variable (intact : Intact s)

include intact

theorem moves (moves : Moves cfg s t) : Intact t := by
  refine ⟨?_, ?_, moves.grows.stacked intact.stacked⟩
  · induction moves with
    | refl => exact intact.lively
    | getStateObject addr _ ih => exact ih.getStateObject addr
    | setStateObject addr _ alive ih => exact ih.setStateObject alive
    | append _ _ ih | dirty _ _ ih | substate _ _ ih => exact ⟨ih.unmarked, ih.cached⟩
  induction moves with
  | refl => exact intact.journaled
  | @getStateObject t addr _ ih =>
    rw [(@getStateObject_journal cfg t addr).1]
    exact ih
  | @append t entry _ plain ih =>
    intro addr prev inside
    rw [append, Journal.entries_append, List.mem_cons] at inside
    exact inside.elim (plain.alive addr prev) (ih addr prev)
  | setStateObject _ _ _ ih | dirty _ _ ih | substate _ _ ih => exact ih

theorem calls (calls : Calls s t) : Intact t := by
  induction calls with
  | refl => exact intact
  | @dropObject t addr prev _ cached ih =>
    refine ⟨ih.lively.erase addr _, fun other found inside => ?_, ?_⟩
    · simp only [append, Journal.entries_append, List.mem_cons] at inside
      rcases inside with same | inside
      · obtain ⟨-, rfl⟩ := JournalEntry.resetObjectChange.inj same
        exact ih.lively.cached addr found cached
      · exact ih.journaled other found inside
    · exact Snapshots.Stacked.grow ih.stacked (by simp [append])
  | @cmChangeCommit t sets _ ih =>
    refine ⟨⟨ih.lively.unmarked, ih.lively.cached⟩, fun other found inside => ?_, ?_⟩
    · simp only [cmChangeCommit, append, Journal.entries_append,
        List.mem_cons, reduceCtorEq, false_or] at inside
      exact ih.journaled other found inside
    · exact Snapshots.Stacked.grow ih.stacked
        (by simp [cmChangeCommit, append, withKV])

theorem revertToSnapshot {revID : Nat}
    (done : s.revertToSnapshot cfg revID = .ok t) : Intact t := by
  have stacked := stacked_revertToSnapshot intact.stacked done
  obtain ⟨_, _, _, -, unwound, rfl⟩ := revertToSnapshot_eq_ok done
  have lively := intact.lively.unwind
    (fun account prev inside => intact.journaled account prev (List.mem_of_mem_take inside)) unwound
  exact ⟨⟨lively.unmarked, lively.cached⟩,
    fun addr prev inside => intact.journaled addr prev (List.mem_of_mem_drop inside), stacked⟩

theorem step {op : Op} (done : s.step cfg op = .ok t) : Intact t := by
  cases plain : op.plain with
  | true => exact intact.moves (step_moves plain done)
  | false =>
    cases op with
    | snapshot =>
      cases done
      exact ⟨⟨intact.lively.unmarked, intact.lively.cached⟩, intact.journaled,
        Snapshots.Stacked.push intact.stacked⟩
    | revertToSnapshot => exact intact.revertToSnapshot done
    | _ => simp [Op.plain] at plain

theorem bridgeStep {op : BridgeOp} (done : s.bridgeStep cfg op = .ok t) : Intact t := by
  cases op with
  | op op => exact intact.step done
  | callPrecompile dirtyOrder cacheOrder writes =>
    cases done
    exact intact.calls (callPrecompile_calls dirtyOrder cacheOrder writes)

theorem restorable : Restorable s :=
  ⟨fun addr so cached gone => by simp [intact.lively.cached addr so cached] at gone,
    fun addr mark => by simp [intact.lively.unmarked] at mark⟩

end Intact

end Intact

/-- The states of a transaction before Mars: operations and precompile calls lead to them from a
new state database over any stores. -/
def BridgeReached (cfg : Config) (s : CommitStateDB) : Prop :=
  cfg.higherThanMars = false ∧ ∃ db thash bhash txIndex ops,
    (newCommitStateDB db thash bhash txIndex).bridgeRun cfg ops = .ok s

/-- While the snapshot of `base` is valid, what an operation reads from the store into the cache,
for an account that no later entry puts back, is as at the snapshot. -/
def FaithfulOp (cfg : Config) (base s : CommitStateDB) : BridgeOp → Prop
  | .op op => base.revision ∈ s.validRevisions → ReadsFaithfully cfg base (s.since base) s op
  | .callPrecompile .. => True

/-- Every operation of a run reads faithfully in the state it is applied to. -/
def FaithfulRun (cfg : Config) (base s : CommitStateDB) (ops : List BridgeOp) : Prop :=
  PartialRun.Guarded (CommitStateDB.bridgeStep cfg) (FaithfulOp cfg base) s ops

section

variable {cfg : Config} {base s t : CommitStateDB}

theorem BridgeReached.intact (reached : BridgeReached cfg s) : Intact s := by
  obtain ⟨-, _, _, _, _, _, done⟩ := reached
  refine PartialRun.run_keeps Intact (fun _ _ _ intact done => intact.bridgeStep done)
    ⟨⟨fun _ => rfl, fun addr so cached => ?_⟩, fun addr prev inside => ?_, ?_⟩ done
  · simp [newCommitStateDB] at cached
  · simp [newCommitStateDB] at inside
  · exact Snapshots.stacked_nil _ _

theorem Tracks.bridgeStep (tracks : Tracks cfg base s) (intact : Intact base) {op : BridgeOp}
    (faithful : FaithfulOp cfg base s op) (done : s.bridgeStep cfg op = .ok t) :
    Tracks cfg base t := by
  cases op with
  | op op => exact tracks.step intact.restorable.unhidden faithful done
  | callPrecompile dirtyOrder cacheOrder writes =>
    cases done
    have calls : Calls s (s.callPrecompile cfg dirtyOrder cacheOrder writes) :=
      callPrecompile_calls dirtyOrder cacheOrder writes
    obtain ⟨entries, valid, next⟩ := calls.grows
    exact tracks.grow entries valid next fun _ since anchored =>
      calls.anchored anchored intact.lively.unmarked

/-- Take a snapshot in any state of a transaction before Mars, then run any operations, nested
snapshots and reverts and precompile calls, with any wasm writes. If they read faithfully, going
back to the snapshot while it is valid does not panic and restores every observable. -/
theorem bridge_revert_restores (reached : BridgeReached cfg s) {ops : List BridgeOp}
    (faithful : FaithfulRun cfg s s.snapshot ops) (done : s.snapshot.bridgeRun cfg ops = .ok t)
    (valid : s.revision ∈ t.validRevisions) :
    ∃ u, t.revertToSnapshot cfg s.nextRevisionID = .ok u ∧ SameObservables cfg s u := by
  have intact := reached.intact
  have steady := intact.restorable.steady
  have tracks : Tracks cfg s t := faithful.keeps
    (fun _ _ _ tracks faithful done => tracks.bridgeStep intact faithful done)
    (Tracks.start intact.stacked steady) done
  obtain ⟨u, reverted, anchored⟩ := tracks.revert valid
  exact ⟨u, reverted, anchored.sameObservables steady⟩

end

def kvConfig : Config := { marsConfig with higherThanMars := false }

def payeeState : CommitStateDB :=
  uncachedState (fun addr => if addr = 7 then some ⟨5, 0, none⟩ else none) fun _ => false

def payment : SnapshotWSet :=
  { SnapshotWSet.none with accounts := fun addr => if addr = 7 then some (some ⟨9, 0, none⟩) else none }

theorem bridgeReached_payeeState : BridgeReached kvConfig payeeState := ⟨rfl, _, 0, 0, 0, [], rfl⟩

/-- The account is loaded for the first time after the call: it keeps the coins of the call
that was undone. -/
theorem payeeState_not_restored : BridgeReached kvConfig payeeState ∧
    ∃ t u, payeeState.snapshot.bridgeRun kvConfig
        [.callPrecompile [] [] (some payment), .op (.getAccount 7)] = .ok t ∧
      payeeState.revision ∈ t.validRevisions ∧
      t.revertToSnapshot kvConfig payeeState.nextRevisionID = .ok u ∧
      payeeState.getBalance kvConfig 7 = 5 ∧ u.getBalance kvConfig 7 = 9 :=
  ⟨bridgeReached_payeeState, _, _, rfl, by decide, rfl, by decide, by decide⟩

/-- Loaded before the call, the account is put back by the journal. -/
theorem bridge_revert_restores_payee : ∃ t u, payeeState.snapshot.bridgeRun kvConfig
        [.op (.setNonce 7 1), .callPrecompile [] [] (some payment), .op (.setNonce 7 2)] = .ok t ∧
      t.revertToSnapshot kvConfig payeeState.nextRevisionID = .ok u ∧
      SameObservables kvConfig payeeState u := by
  have faithful : FaithfulRun kvConfig payeeState payeeState.snapshot
      [.op (.setNonce 7 1), .callPrecompile [] [] (some payment), .op (.setNonce 7 2)] := by
    refine ⟨fun _ _ _ account stored => stored, fun t first => ⟨trivial, fun u second => ⟨?_, ?_⟩⟩⟩
    · cases first
      cases second
      intro _ fresh
      exact absurd ⟨_, .tail _ (.tail _ (.head _)), _, rfl⟩ fresh
    · exact fun _ _ => trivial
  obtain ⟨u, reverted, same⟩ :=
    bridge_revert_restores bridgeReached_payeeState faithful rfl (by decide)
  exact ⟨_, u, rfl, reverted, same⟩

end Exchain.Evm
