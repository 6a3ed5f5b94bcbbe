import Exchain.Evm.JournaledOps

namespace Exchain.Evm

open CommitStateDB Snapshots.Stacked List

section

variable {cfg : Config} {s t : CommitStateDB}

/-- An entry of the state database itself: not the bridge's, and not for putting back a deleted
object. -/
structure JournalEntry.Plain (entry : JournalEntry) : Prop where
  bridge : ∀ sets, .cmChange sets ≠ entry
  alive : ∀ account prev, .resetObjectChange account prev = entry → prev.deleted = false

/-- What the operations other than snapshots and reverts are made of: accesses, live objects put in
the cache, plain entries, dirty marks, substate changes. -/
inductive Moves (cfg : Config) (s : CommitStateDB) : CommitStateDB → Prop
  | refl : Moves cfg s s
  | getStateObject {t : CommitStateDB} (addr : Address) :
      Moves cfg s t → Moves cfg s (t.getStateObject cfg addr).2
  | setStateObject {t : CommitStateDB} (addr : Address) {so : StateObject} :
      Moves cfg s t → so.deleted = false → Moves cfg s (t.setStateObject addr so)
  | append {t : CommitStateDB} {entry : JournalEntry} :
      Moves cfg s t → entry.Plain → Moves cfg s (t.append entry)
  | dirty {t : CommitStateDB} (addr : Address) :
      Moves cfg s t → Moves cfg s { t with journal := t.journal.dirty addr }
  | substate {t : CommitStateDB} (sub : Substate) :
      Moves cfg s t → Moves cfg s { t with substate := sub }

variable {addr : Address}

theorem getStateObject_alive {so : StateObject}
    (found : s.getStateObject cfg addr = (some so, t)) : so.deleted = false := by
  have kept := congrArg Prod.fst found
  obtain ⟨-, alive⟩ := Option.filter_eq_some_iff.mp kept
  simpa using alive

namespace Moves

variable (moves : Moves cfg s t)

include moves

theorem createObject (addr : Address) : Moves cfg s (t.createObject cfg addr).2.2 := by
  refine ((moves.getStateObject addr).append ?_).setStateObject addr rfl
  split
  · exact ⟨by simp, by simp⟩
  rename_i prev found
  refine ⟨by simp, fun account other same => ?_⟩
  obtain ⟨-, rfl⟩ := JournalEntry.resetObjectChange.inj same
  exact getStateObject_alive (Prod.ext found rfl)

theorem getOrNewStateObject (addr : Address) : Moves cfg s (t.getOrNewStateObject cfg addr).2 ∧
      (t.getOrNewStateObject cfg addr).1.deleted = false := by
  have first : Moves cfg s (t.getStateObject cfg addr).2 := moves.getStateObject addr
  unfold CommitStateDB.getOrNewStateObject
  split
  · rename_i got
    rw [got] at first
    exact ⟨first, getStateObject_alive got⟩
  · rename_i got
    rw [got] at first
    exact ⟨first.createObject addr, rfl⟩

theorem setObjectBalance {u : CommitStateDB}
    {so : StateObject} {amount : Int} (alive : so.deleted = false)
    (done : t.setObjectBalance addr so amount = .ok u) : Moves cfg s u := by
  unfold CommitStateDB.setObjectBalance at done
  split at done
  · simp at done
  cases done
  exact (moves.append ⟨by simp, by simp⟩).setStateObject addr alive

theorem touch (addr : Address) : Moves cfg s (t.touch addr) := by
  have appended : Moves cfg s (t.append (.touchChange addr)) := moves.append ⟨by simp, by simp⟩
  unfold CommitStateDB.touch
  split
  · exact appended.dirty addr
  · exact appended

theorem load (addr : Address) {change : StateObject → StateObject}
    (keeps : ∀ so, (change so).deleted = so.deleted) : Moves cfg s (t.load cfg addr change) := by
  have first : Moves cfg s (t.getStateObject cfg addr).2 := moves.getStateObject addr
  unfold CommitStateDB.load
  split
  all_goals
    rename_i got
    rw [got] at first
  · exact first.setStateObject addr ((keeps _).trans (getStateObject_alive got))
  · exact first

end Moves

/-- The operations other than taking and going back to snapshots. -/
def Op.plain : Op → Bool
  | .snapshot | .revertToSnapshot _ => false
  | _ => true

def Op.onSubstate : Op → Bool
  | .addLog .. | .addPreimage .. | .addRefund _ | .subRefund _ | .addAddressToAccessList _
  | .addSlotToAccessList .. => true
  | _ => false

variable {op : Op}

/-- What holds across substate changes and their entries holds across the operations made of these
alone. -/
theorem step_onSubstate (inv : CommitStateDB → Prop) (plain : op.onSubstate = true)
    (done : s.step cfg op = .ok t)
    (append : ∀ u entry, inv u → entry.onSubstate = true → entry.dirtied = none →
      inv (u.append entry))
    (substate : ∀ u sub, inv u → inv { u with substate := sub }) (start : inv s) : inv t := by
  cases op with
  | addLog | addRefund =>
    cases done
    exact substate _ _ (append _ _ start rfl rfl)
  | addPreimage =>
    cases done
    simp only [addPreimage]
    split
    · exact start
    · exact substate _ _ (append _ _ start rfl rfl)
  | subRefund gas =>
    simp only [step, subRefund] at done
    split at done
    · contradiction
    cases done
    exact substate _ _ (append _ _ start rfl rfl)
  | addAddressToAccessList addr =>
    cases done
    simp only [addAddressToAccessList]
    split
    · exact append _ _ (substate _ _ start) rfl rfl
    · exact substate _ _ start
  | addSlotToAccessList =>
    cases done
    simp only [addSlotToAccessList]
    repeat' split
    · exact append _ _ (append _ _ (substate _ _ start) rfl rfl) rfl rfl
    · exact append _ _ (substate _ _ start) rfl rfl
    · exact append _ _ (substate _ _ start) rfl rfl
    · exact substate _ _ start
  | _ => simp [Op.onSubstate] at plain

theorem step_moves (plain : op.plain = true) (done : s.step cfg op = .ok t) : Moves cfg s t := by
  have start : Moves cfg s s := .refl
  cases op with
  | setBalance addr =>
    obtain ⟨object, alive⟩ := start.getOrNewStateObject addr
    exact object.setObjectBalance alive done
  | addBalance addr =>
    obtain ⟨object, alive⟩ := start.getOrNewStateObject addr
    simp only [step, addBalance] at done
    split at done
    · cases done
      split
      · exact object.touch addr
      · exact object
    · exact object.setObjectBalance alive done
  | subBalance addr =>
    obtain ⟨object, alive⟩ := start.getOrNewStateObject addr
    simp only [step, subBalance] at done
    split at done
    · cases done
      exact object
    · exact object.setObjectBalance alive done
  | setNonce addr =>
    obtain ⟨object, alive⟩ := start.getOrNewStateObject addr
    cases done
    exact (object.append ⟨by simp, by simp⟩).setStateObject addr alive
  | setState addr key =>
    obtain ⟨object, alive⟩ := start.getOrNewStateObject addr
    cases done
    simp only [setState]
    split
    · exact object.setStateObject addr ((StateObject.deleted_getState _ key).trans alive)
    · exact ((object.setStateObject addr ((StateObject.deleted_getState _ key).trans alive)).append
        ⟨by simp, by simp⟩).setStateObject addr ((StateObject.deleted_getState _ key).trans alive)
  | setCode addr code =>
    obtain ⟨object, alive⟩ := start.getOrNewStateObject addr
    cases done
    exact ((object.setStateObject addr ((StateObject.deleted_getCode _).trans alive)).append
      ⟨by simp, by simp⟩).setStateObject addr ((StateObject.deleted_getCode _).trans alive)
  | createAccount addr =>
    cases done
    have created : Moves cfg s (s.createObject cfg addr).2.2 := start.createObject addr
    simp only [createAccount]
    split
    all_goals
      rename_i got
      rw [got] at created
    · refine created.setStateObject addr ?_
      obtain rfl := congrArg Prod.fst got
      rfl
    · exact created
  | suicide addr =>
    cases done
    have found : Moves cfg s (s.getStateObject cfg addr).2 := start.getStateObject addr
    simp only [suicide]
    split
    all_goals
      rename_i got
      rw [got] at found
    · exact found
    · have alive := getStateObject_alive got
      exact ((found.append ⟨by simp, by simp⟩).append ⟨by simp, by simp⟩).setStateObject addr alive
  | addLog | addPreimage | addRefund | subRefund | addAddressToAccessList | addSlotToAccessList =>
    refine step_onSubstate (Moves cfg s) rfl done (fun _ entry moves own _ => moves.append ?_)
      (fun _ sub moves => moves.substate sub) start
    cases entry <;> simp [JournalEntry.onSubstate] at own <;> exact ⟨by simp, by simp⟩
  | getAccount addr =>
    cases done
    exact start.load addr fun _ => rfl
  | getCode addr =>
    cases done
    exact start.load addr fun so => so.deleted_getCode
  | getState addr key =>
    cases done
    exact start.load addr fun so => so.deleted_getState key
  | getCommittedState addr key =>
    cases done
    exact start.load addr fun so => so.deleted_getCommittedState key
  | snapshot | revertToSnapshot revID => simp [Op.plain] at plain

/-- Entries are added to the journal, none for the bridge, and the snapshots stay as they are. -/
structure Grows (s t : CommitStateDB) : Prop where
  entries : ∃ newer, t.journal.entries = newer ++ s.journal.entries
  bridge : ∀ sets, .cmChange sets ∈ t.journal.entries → .cmChange sets ∈ s.journal.entries
  validRevisions : t.validRevisions = s.validRevisions
  nextRevisionID : t.nextRevisionID = s.nextRevisionID

theorem getStateObject_journal (s : CommitStateDB) (addr : Address) :
    (s.getStateObject cfg addr).2.journal = s.journal ∧
      (s.getStateObject cfg addr).2.validRevisions = s.validRevisions ∧
      (s.getStateObject cfg addr).2.nextRevisionID = s.nextRevisionID := by
  unfold getStateObject getDeletedStateObject
  simp only
  repeat' split
  all_goals exact ⟨rfl, rfl, rfl⟩

theorem Moves.grows (moves : Moves cfg s t) : Grows s t := by
  induction moves with
  | refl => exact ⟨⟨[], rfl⟩, fun _ => id, rfl, rfl⟩
  | @getStateObject t addr _ ih =>
    obtain ⟨journal, valid, next⟩ := @getStateObject_journal cfg t addr
    exact ⟨by rw [journal]; exact ih.entries, by rw [journal]; exact ih.bridge,
      valid.trans ih.validRevisions, next.trans ih.nextRevisionID⟩
  | @append t entry _ plain ih =>
    obtain ⟨newer, grown⟩ := ih.entries
    have appended : (t.append entry).journal.entries = entry :: t.journal.entries :=
      t.journal.entries_append entry
    refine ⟨⟨entry :: newer, by rw [appended, grown]; rfl⟩, fun sets inside => ?_,
      ih.validRevisions, ih.nextRevisionID⟩
    rw [appended, mem_cons] at inside
    exact ih.bridge sets (inside.resolve_left (plain.bridge sets))
  | setStateObject | dirty | substate =>
    rename_i ih
    exact ⟨ih.entries, ih.bridge, ih.validRevisions, ih.nextRevisionID⟩

/-- Kept by all that undoing entries does: accesses, objects put in the cache and taken out, changes
of the substate, the store and the dirty marks. -/
structure UndoKeeps (cfg : Config) (ok : StateObject → Prop) (inv : CommitStateDB → Prop) : Prop where
  alive : ∀ so, so.deleted = false → ok so
  getStateObject : ∀ s addr, inv s → inv (s.getStateObject cfg addr).2
  setStateObject : ∀ s addr so, inv s → ok so → inv (s.setStateObject addr so)
  erase : ∀ s addr, inv s → inv { s with stateObjects := s.stateObjects.erase addr }
  substate : ∀ s sub, inv s → inv { s with substate := sub }
  withKV : ∀ s kv, inv s → inv (s.withKV kv)
  journal : ∀ s journal, inv s → inv { s with journal := journal }

namespace UndoKeeps

variable {ok : StateObject → Prop} {inv : CommitStateDB → Prop} (keeps : UndoKeeps cfg ok inv)

include keeps

theorem modifyObject (start : inv s)
    {change : StateObject → StateObject} (done : s.modifyObject cfg addr change = .ok t)
    (same : ∀ so, (change so).deleted = so.deleted) : inv t := by
  have found := keeps.getStateObject s addr start
  unfold CommitStateDB.modifyObject at done
  split at done
  · rename_i got
    cases done
    rw [got] at found
    exact keeps.setStateObject _ _ _ found
      (keeps.alive _ ((same _).trans (getStateObject_alive got)))
  · simp at done

theorem revert (start : inv s) {entry : JournalEntry}
    (resets : ∀ account prev, .resetObjectChange account prev = entry → ok prev)
    (done : entry.revert cfg s = .ok t) : inv t := by
  cases entry with
  | suicideChange account =>
    have found := keeps.getStateObject s account start
    simp only [JournalEntry.revert] at done
    split at done
    all_goals
      rename_i got
      cases done
      rw [got] at found
    · have alive := getStateObject_alive got
      exact keeps.setStateObject _ _ _ found (keeps.alive _ alive)
    · exact found
  | balanceChange | nonceChange | codeChange | storageChange =>
    exact keeps.modifyObject start done fun _ => rfl
  | createObjectChange account =>
    cases done
    exact keeps.erase s account start
  | resetObjectChange account prev =>
    cases done
    exact keeps.setStateObject s account prev start (resets account prev rfl)
  | touchChange =>
    cases done
    exact start
  | accessListAddSlotChange =>
    simp only [JournalEntry.revert] at done
    split at done
    · cases done
      exact keeps.substate s _ start
    · simp at done
  | refundChange | addLogChange | addPreimageChange | accessListAddAccountChange =>
    cases done
    exact keeps.substate s _ start
  | cmChange sets =>
    cases done
    exact keeps.withKV s _ start

theorem unwind {entries : List JournalEntry} (start : inv s)
    (resets : ∀ account prev, .resetObjectChange account prev ∈ entries → ok prev)
    (done : unwind cfg entries s = .ok t) : inv t := by
  induction entries generalizing s with
  | nil =>
    cases done
    exact start
  | cons _ _ ih =>
    obtain ⟨_, reverted, done⟩ := Fallible.bind_eq_ok.mp done
    have first := keeps.revert start
      (fun account prev same => resets account prev (same ▸ mem_cons_self)) reverted
    exact ih (keeps.journal _ _ first)
      (fun account prev inside => resets account prev (mem_cons_of_mem _ inside)) done

end UndoKeeps

theorem unwind_nextRevisionID {entries : List JournalEntry} (done : unwind cfg entries s = .ok t) :
    t.nextRevisionID = s.nextRevisionID := by
  have keeps : UndoKeeps cfg (fun _ => True) (fun t => t.nextRevisionID = s.nextRevisionID) :=
    ⟨fun _ _ => trivial, fun t addr same => (getStateObject_journal t addr).2.2.trans same,
      fun _ _ _ same _ => same, fun _ _ => id, fun _ _ => id, fun _ _ => id, fun _ _ => id⟩
  exact keeps.unwind rfl (fun _ _ _ => trivial) done

variable {revID : Nat}

theorem revertToSnapshot_eq_ok (done : s.revertToSnapshot cfg revID = .ok t) :
    ∃ revision older u, Snapshots.find revID s.validRevisions = some (revision, older) ∧
      unwind cfg (s.journal.entries.take (s.journal.entries.length - revision.length)) s = .ok u ∧
      t = { u with
        journal := { u.journal with
          entries := s.journal.entries.drop (s.journal.entries.length - revision.length) }
        validRevisions := older } := by
  unfold revertToSnapshot at done
  split at done
  · simp at done
  rename_i revision older found
  unfold revertJournal at done
  cases unwound : unwind cfg
      (s.journal.entries.take (s.journal.entries.length - revision.length)) s with
  | error panic => simp [unwound] at done
  | ok u =>
    simp only [unwound] at done
    exact ⟨revision, older, u, found, unwound, (Except.ok.inj done).symm⟩

theorem revertToSnapshot_ok {revision : Snapshots.Mark} {older : List Snapshots.Mark}
    (found : Snapshots.find revID s.validRevisions = some (revision, older)) (unwound : unwind cfg
      (s.journal.entries.take (s.journal.entries.length - revision.length)) s = .ok t) :
    s.revertToSnapshot cfg revID = .ok { t with
      journal := { t.journal with
        entries := s.journal.entries.drop (s.journal.entries.length - revision.length) }
      validRevisions := older } := by
  simp [revertToSnapshot, found, revertJournal, unwound, bind, Except.bind, pure, Except.pure]

def CommitStateDB.Stacked (s : CommitStateDB) : Prop :=
  Snapshots.Stacked s.nextRevisionID s.journal.entries.length s.validRevisions

theorem Grows.stacked (grows : Grows s t) (stacked : s.Stacked) : t.Stacked := by
  obtain ⟨_, grown⟩ := grows.entries
  rw [CommitStateDB.Stacked, grows.validRevisions, grows.nextRevisionID]
  exact Snapshots.Stacked.grow stacked (by simp [grown])

theorem stacked_revertToSnapshot (stacked : s.Stacked)
    (done : s.revertToSnapshot cfg revID = .ok t) : t.Stacked := by
  obtain ⟨_, _, _, found, unwound, rfl⟩ := revertToSnapshot_eq_ok done
  have bound := (found_bounded stacked found).2
  have left := rewind stacked found
  rw [← unwind_nextRevisionID unwound] at left
  refine left.grow ?_
  simp only [length_drop]
  omega

theorem stacked_step (stacked : s.Stacked) (done : s.step cfg op = .ok t) : t.Stacked := by
  cases plain : op.plain with
  | true => exact (step_moves plain done).grows.stacked stacked
  | false =>
    cases op with
    | snapshot =>
      cases done
      exact push stacked
    | revertToSnapshot => exact stacked_revertToSnapshot stacked done
    | _ => simp [Op.plain] at plain

theorem bridge_step (done : s.step cfg op = .ok t) {sets : SnapshotWSet}
    (inside : .cmChange sets ∈ t.journal.entries) : .cmChange sets ∈ s.journal.entries := by
  cases plain : op.plain with
  | true => exact (step_moves plain done).grows.bridge sets inside
  | false =>
    cases op with
    | snapshot =>
      cases done
      exact inside
    | revertToSnapshot =>
      obtain ⟨_, _, _, -, -, rfl⟩ := revertToSnapshot_eq_ok done
      exact mem_of_mem_drop inside
    | _ => simp [Op.plain] at plain

end

def CommitStateDB.revision (s : CommitStateDB) : Snapshots.Mark :=
  ⟨s.nextRevisionID, s.journal.entries.length⟩

def CommitStateDB.since (s base : CommitStateDB) : List JournalEntry :=
  s.journal.entries.take (s.journal.entries.length - base.journal.entries.length)

/-- A state after the snapshot of `base` was taken: anchored as long as the snapshot is valid. -/
structure Tracks (cfg : Config) (base s : CommitStateDB) : Prop where
  stacked : s.Stacked
  later : base.nextRevisionID < s.nextRevisionID
  anchored : base.revision ∈ s.validRevisions → ∃ since, Anchored cfg base since s

section Tracks

variable {cfg : Config} {base s t : CommitStateDB}

theorem Anchored.since_eq {since : List JournalEntry} (anchored : Anchored cfg base since s) :
    s.since base = since := by
  simp [CommitStateDB.since, anchored.entries]

namespace Tracks

theorem start (stacked : base.Stacked) (steady : Steady base.db.kv.accounts base) :
    Tracks cfg base base.snapshot where
  stacked := push stacked
  later := Nat.lt_succ_self _
  anchored := fun _ =>
    ⟨[], rfl, trivial, fun _ => rfl, rfl, rfl, rfl, ⟨steady.stored, steady.missing⟩, fun _ => id⟩

variable (tracks : Tracks cfg base s)

include tracks

theorem grow (entries : ∃ newer, t.journal.entries = newer ++ s.journal.entries)
    (revisions : t.validRevisions = s.validRevisions) (next : t.nextRevisionID = s.nextRevisionID)
    (keep : base.revision ∈ s.validRevisions → ∀ since, Anchored cfg base since s →
      Continues cfg base since t) : Tracks cfg base t := by
  obtain ⟨_, grown⟩ := entries
  refine ⟨?_, next ▸ tracks.later, ?_⟩
  · rw [CommitStateDB.Stacked, revisions, next]
    exact Snapshots.Stacked.grow tracks.stacked (by simp [grown])
  rw [revisions]
  intro valid
  obtain ⟨since, anchored⟩ := tracks.anchored valid
  obtain ⟨newest, anchored⟩ := keep valid since anchored
  exact ⟨newest ++ since, anchored⟩

theorem snapshot : Tracks cfg base s.snapshot := by
  refine ⟨push tracks.stacked, Nat.lt_succ_of_lt tracks.later, fun valid => ?_⟩
  have older : base.revision ∈ s.validRevisions := by
    refine (mem_cons.mp valid).resolve_left fun same => ?_
    have ids : base.nextRevisionID = s.nextRevisionID := congrArg Snapshots.Mark.id same
    exact absurd tracks.later (by omega)
  obtain ⟨since, anchored⟩ := tracks.anchored older
  exact ⟨since, anchored.entries, anchored.live, anchored.views, anchored.kv, anchored.mpt,
    anchored.substate, ⟨anchored.steady.stored, anchored.steady.missing⟩, anchored.marks⟩

/-- Going back to a newer snapshot undoes the newest part of what came since. -/
theorem revertToSnapshot {revID : Nat}
    (done : s.revertToSnapshot cfg revID = .ok t) : Tracks cfg base t := by
  have stacked := stacked_revertToSnapshot tracks.stacked done
  obtain ⟨revision, _, _, found, unwound, rfl⟩ := revertToSnapshot_eq_ok done
  refine ⟨stacked, unwind_nextRevisionID unwound ▸ tracks.later, fun valid => ?_⟩
  obtain ⟨inside, below⟩ := below_found tracks.stacked found valid
  obtain ⟨since, anchored⟩ := tracks.anchored inside
  -- the entries undone are the first of those made since
  obtain ⟨count, counted⟩ : ∃ count, s.journal.entries.length - revision.length = count := ⟨_, rfl⟩
  have within : count ≤ since.length := by
    have length := congrArg length anchored.entries
    simp only [length_append] at length
    simp only [CommitStateDB.revision] at below
    omega
  rw [counted] at unwound
  have newest : s.journal.entries.take count = since.take count := by
    rw [anchored.entries, take_append_of_le_length within]
  have rest : s.journal.entries.drop count = since.drop count ++ base.journal.entries := by
    rw [anchored.entries, drop_append_of_le_length within]
  have whole : Anchored cfg base (since.take count ++ since.drop count) s := by
    rwa [take_append_drop]
  obtain ⟨_, again, left⟩ := whole.unwind
  rw [newest, again] at unwound
  cases unwound
  exact ⟨since.drop count, left _ _ (by rw [counted]; exact rest)⟩

/-- As long as its snapshot is valid, going back to it succeeds and leaves nothing to undo. -/
theorem revert (valid : base.revision ∈ s.validRevisions) :
    ∃ u, s.revertToSnapshot cfg base.nextRevisionID = .ok u ∧ Anchored cfg base [] u := by
  obtain ⟨_, found⟩ := find_mem tracks.stacked valid
  obtain ⟨since, anchored⟩ := tracks.anchored valid
  have count : s.journal.entries.length - base.revision.length = since.length := by
    simp [anchored.entries, CommitStateDB.revision]
  have whole : Anchored cfg base (since ++ []) s := by rwa [append_nil]
  obtain ⟨u, unwound, left⟩ := whole.unwind
  refine ⟨_, revertToSnapshot_ok found (t := u) ?_, left _ _ ?_⟩
  · rw [count, anchored.entries, take_left']
    · exact unwound
    · rfl
  · rw [count, anchored.entries, drop_left']
    · rfl
    · rfl

end Tracks

end Tracks

end Exchain.Evm
