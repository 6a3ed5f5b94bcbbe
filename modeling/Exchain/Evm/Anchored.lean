import Exchain.Evm.Unwinding

namespace Exchain.Evm

open CommitStateDB JournalEntry

/-- The entries made since the state `base` lead back from `s` to it. -/
structure Anchored (cfg : Config) (base : CommitStateDB) (since : List JournalEntry)
    (s : CommitStateDB) : Prop where
  entries : s.journal.entries = since ++ base.journal.entries
  live : Live cfg s.updatedAccount base.db.kv.accounts since (s.cell cfg)
  views : ∀ addr, viewAt cfg base.db addr (cellAfter cfg since addr (s.cell cfg addr)) =
    viewAt cfg base.db addr (base.cell cfg addr)
  kv : kvAfter since s.db.kv = base.db.kv
  mpt : s.db.mpt = base.db.mpt
  substate : substateAfter since s.substate = some base.substate
  steady : Steady base.db.kv.accounts s
  marks : ∀ addr, s.updatedAccount addr = true → base.updatedAccount addr = true

/-- An object that an access has returned, as it stands in the cache. -/
structure Held (cfg : Config) (s : CommitStateDB) (addr : Address) (raw so : StateObject) : Prop where
  cached : s.cell cfg addr = some so
  alive : so.deleted = false
  settled : raw.settled cfg = so
  marked : s.updatedAccount addr = true →
    (s.db.kv.accounts addr).map (·.withCodeHash cfg) = some so.account

/-- An address that an access has found no object for. -/
structure Absent (cfg : Config) (s : CommitStateDB) (addr : Address) : Prop where
  dead : ∀ so, s.cell cfg addr = some so → so.deleted = true
  unstored : s.cell cfg addr = none → s.db.kv.accounts addr = none
  unmarked : s.updatedAccount addr = false

/-- A stored account that is loaded to stay in the cache after a revert is the one stored at the
snapshot. -/
def LoadsFaithfully (cfg : Config) (base : CommitStateDB) (since : List JournalEntry)
    (s : CommitStateDB) (addr : Address) : Prop :=
  ¬ Overwrites cfg since addr → s.stateObjects.lookup addr = none →
    ∀ account, s.db.kv.accounts addr = some account → base.db.kv.accounts addr = some account

variable {cfg : Config} {base s t : CommitStateDB} {since : List JournalEntry} {addr : Address}
  {raw so : StateObject}

theorem Held.settled_eq (held : Held cfg s addr raw so) (other : StateObject) :
    (s.refreshed addr other).settled cfg = other.settled cfg ∨
      (s.refreshed addr other).settled cfg = { other with account := so.account } := by
  obtain ⟨_, refresh, plain, stored⟩ := refreshed_eq s addr other
  rw [refresh]
  cases mark : s.updatedAccount addr with
  | false => exact .inl (by rw [plain mark])
  | true =>
    obtain ⟨found, inside, hash⟩ := Option.map_eq_some_iff.mp (held.marked mark)
    rw [stored mark found inside]
    exact .inr (by simp [StateObject.settled, hash])

theorem Held.settled_of_account (held : Held cfg s addr raw so)
    (other : StateObject) (same : other.account = raw.account) :
    (s.refreshed addr other).settled cfg = { other with account := so.account } := by
  rcases held.settled_eq other with plain | reloaded
  · rw [plain, ← held.settled]
    simp [StateObject.settled, same]
  · exact reloaded

namespace Anchored

theorem refl (steady : Steady base.db.kv.accounts base) : Anchored cfg base [] base :=
  ⟨rfl, trivial, fun _ => rfl, rfl, rfl, rfl, steady, fun _ => id⟩

section

variable (anchored : Anchored cfg base since s)

include anchored

theorem sameBut (same : SameBut s t) (steady : Steady base.db.kv.accounts t)
    (alive : ∀ addr so, s.cell cfg addr = some so → so.deleted = false →
      ∃ other, t.cell cfg addr = some other ∧ other.deleted = false)
    (views : ∀ addr, viewAt cfg base.db addr (cellAfter cfg since addr (t.cell cfg addr)) =
      viewAt cfg base.db addr (cellAfter cfg since addr (s.cell cfg addr))) :
    Anchored cfg base since t where
  entries := (congrArg Journal.entries same.journal).trans anchored.entries
  live := anchored.live.mono same.marks alive
  views := fun addr => (views addr).trans (anchored.views addr)
  kv := (congrArg (fun db : Db => kvAfter since db.kv) same.db).trans anchored.kv
  mpt := (congrArg Db.mpt same.db).trans anchored.mpt
  substate := (congrArg (substateAfter since) same.substate).trans anchored.substate
  steady := steady
  marks := fun addr mark => anchored.marks addr (same.marks addr mark)

theorem setStateObject {other new : StateObject}
    (held : Held cfg s addr raw so) (settled : (s.refreshed addr other).settled cfg = new)
    (kept : new.deleted = false)
    (alike : Overwrites cfg since addr ∨ new.Alike cfg base.db addr so) :
    Anchored cfg base since (s.setStateObject addr other) := by
  refine anchored.sameBut (.setStateObject s addr other) (anchored.steady.setStateObject ?_) ?_ ?_
  · -- a marked address that is not stored has no live object
    intro absent mark
    have stored := (anchored.steady.stored addr mark).trans absent
    simpa [stored] using held.marked mark
  · intro account found cached left
    rw [cell_setStateObject]
    by_cases same : account = addr
    · exact ⟨new, by simp [same, settled], kept⟩
    · exact ⟨found, by simpa [same] using cached, left⟩
  · intro account
    rw [cell_setStateObject]
    by_cases same : account = addr
    · subst same
      rw [if_pos rfl, settled, held.cached]
      rcases alike with overwritten | alike
      · rw [cellAfter_overwritten overwritten]
      · exact cellAfter_alike alike
    · simp [same]

theorem load (uncached : s.cell cfg addr = none)
    {account : Account} (stored : s.db.kv.accounts addr = some account)
    (faithful : LoadsFaithfully cfg base since s addr) :
    Anchored cfg base since (s.setStateObject addr (loadObject cfg s.db addr account)) ∧
      Held cfg (s.setStateObject addr (loadObject cfg s.db addr account)) addr
        (loadObject cfg s.db addr account) (loadObject cfg s.db addr account) := by
  have present := fun mark => (anchored.steady.stored addr mark).symm.trans stored
  have settled : (s.refreshed addr (loadObject cfg s.db addr account)).settled cfg =
      loadObject cfg s.db addr account := by
    obtain ⟨_, refresh, plain, same⟩ :=
      refreshed_eq s addr (loadObject cfg s.db addr account)
    rw [refresh]
    cases mark : s.updatedAccount addr with
    | false =>
      rw [plain mark]
      simp [loadObject, newStateObject, StateObject.settled, Account.withCodeHash]
    | true =>
      rw [same mark account stored]
      simp [loadObject, newStateObject, StateObject.settled]
  have cells : ∀ other, (s.setStateObject addr (loadObject cfg s.db addr account)).cell cfg other =
      if other = addr then some (loadObject cfg s.db addr account) else s.cell cfg other := by
    intro other
    rw [cell_setStateObject, settled]
  refine ⟨anchored.sameBut (.setStateObject s addr _) (anchored.steady.setStateObject ?_) ?_ ?_,
    by rw [cells, if_pos rfl], rfl, ?_, fun _ => ?_⟩
  · intro absent mark
    simp [present mark] at absent
  · intro other so cached kept
    have different : other ≠ addr := by
      rintro rfl
      simp [uncached] at cached
    exact ⟨so, by rw [cells, if_neg different, cached], kept⟩
  · intro other
    rw [cells]
    by_cases same : other = addr
    · subst same
      rw [uncached]
      by_cases overwritten : Overwrites cfg since other
      · rw [cellAfter_overwritten overwritten]
      -- no entry concerns the address: the loaded object stays after the revert
      have untouched := anchored.live.cellAfter_eq_self overwritten
        (fun so cached => by simp [uncached] at cached)
      have before := faithful overwritten (cell_eq_none_iff.mp uncached) account stored
      rw [untouched, untouched]
      simp [viewAt, before, loadObject, newStateObject, anchored.mpt]
    · rw [if_neg same]
  · simp [loadObject, newStateObject, StateObject.settled, Account.withCodeHash]
  · show (s.db.kv.accounts addr).map (·.withCodeHash cfg) = _
    rw [stored]
    rfl

theorem getStateObject (faithful : LoadsFaithfully cfg base since s addr) :
    ∃ found t, s.getStateObject cfg addr = (found, t) ∧ Anchored cfg base since t ∧ SameBut s t ∧
      (found = none ∧ Absent cfg t addr ∨ ∃ raw so, found = some raw ∧ Held cfg t addr raw so) := by
  cases cached : s.cell cfg addr with
  | some so =>
    obtain ⟨found, t, got, same, cells, clear, steady, outcome⟩ :=
      getStateObject_cached anchored.steady cached
    have here := (cells addr).trans cached
    refine ⟨found, t, got, anchored.sameBut same steady ?_ ?_, same, ?_⟩
    · exact fun other so inside kept => ⟨so, (cells other).trans inside, kept⟩
    · exact fun other => by rw [cells]
    · rcases outcome with ⟨gone, rfl⟩ | ⟨kept, raw, rfl, settled⟩
      · refine .inl ⟨rfl, fun other inside => ?_, by simp [here], clear⟩
        cases here.symm.trans inside
        exact gone
      · exact .inr ⟨raw, so, rfl, here, kept, settled, by simp [clear]⟩
  | none =>
    have got := getStateObject_uncached cached
    cases stored : s.db.kv.accounts addr with
    | none =>
      rw [stored] at got
      refine ⟨none, s, got, anchored, .refl s, .inl ⟨rfl, by simp [cached], fun _ => stored, ?_⟩⟩
      by_contra mark
      rw [Bool.not_eq_false] at mark
      obtain ⟨_, looked, -⟩ := anchored.steady.missing addr mark
        ((anchored.steady.stored addr mark).symm.trans stored)
      simp [cell_eq_none_iff.mp cached] at looked
    | some =>
      rw [stored] at got
      obtain ⟨loaded, held⟩ := anchored.load cached stored faithful
      exact ⟨_, _, got, loaded, .setStateObject s addr _, .inr ⟨_, _, rfl, held⟩⟩

theorem getStateObject_absent (absent : Absent cfg s addr) :
    ∃ t, s.getStateObject cfg addr = (none, t) ∧ Anchored cfg base since t ∧ SameBut s t ∧
      Absent cfg t addr := by
  cases cached : s.cell cfg addr with
  | none =>
    refine ⟨s, ?_, anchored, .refl s, absent⟩
    rw [getStateObject_uncached cached, absent.unstored cached]
  | some so =>
    obtain ⟨_, t, got, same, cells, clear, steady, ⟨-, rfl⟩ | ⟨kept, -⟩⟩ :=
      getStateObject_cached anchored.steady cached
    · refine ⟨t, got, anchored.sameBut same steady ?_ ?_, same, ?_, ?_, clear⟩
      · exact fun other so inside kept => ⟨so, (cells other).trans inside, kept⟩
      · exact fun other => by rw [cells]
      · exact fun other inside => absent.dead other ((cells addr).symm.trans inside)
      · intro uncached
        simp [cells, cached] at uncached
    · simp [absent.dead so cached] at kept

theorem change
    (held : Held cfg s addr raw so) {entry : JournalEntry} {change : StateObject → StateObject}
    (changes : entry.objectChange = some (addr, change)) {other : StateObject}
    (alike : (change ((s.refreshed addr other).settled cfg)).Alike cfg base.db addr so) :
    Anchored cfg base (entry :: since) ((s.append entry).setStateObject addr other) := by
  obtain ⟨undoes, kv, substate⟩ := @undo_of_objectChange cfg _ _ _ changes
  have kept := (objectChange_deleted changes _).symm.trans (alike.1.trans held.alive)
  have cells : ∀ account, ((s.append entry).setStateObject addr other).cell cfg account =
      if account = addr then some ((s.refreshed addr other).settled cfg) else s.cell cfg account :=
    fun account => cell_setStateObject (s.append entry) addr other account
  have steady : Steady base.db.kv.accounts (s.append entry) :=
    ⟨anchored.steady.stored, anchored.steady.missing⟩
  refine ⟨?_, ⟨⟨?_, ?_, ?_, ?_⟩, anchored.live.mono (fun _ => id) ?_⟩, ?_, ?_, anchored.mpt, ?_,
    steady.setStateObject ?_, anchored.marks⟩
  · show (s.journal.append entry).entries = _
    rw [Journal.entries_append, anchored.entries]
    rfl
  · intro account other changed
    obtain ⟨rfl, -⟩ := Prod.mk.injEq .. ▸ Option.some.inj (changes.symm.trans changed)
    exact ⟨_, by rw [cells, if_pos rfl], kept⟩
  · rintro account rfl
    simp [objectChange] at changes
  · rintro account prev rfl
    simp [objectChange] at changes
  · rintro sets rfl
    simp [objectChange] at changes
  · intro account found cached left
    rw [undoes, cells]
    by_cases same : account = addr
    · exact ⟨_, by rw [if_pos same, if_pos same, Option.map_some], alike.1.trans held.alive⟩
    · exact ⟨found, by rw [if_neg same, if_neg same, cached], left⟩
  · intro account
    show viewAt cfg base.db account (cellAfter cfg since account (entry.undoCell cfg account _)) = _
    rw [undoes, cells, ← anchored.views]
    by_cases same : account = addr
    · subst same
      rw [if_pos rfl, if_pos rfl, held.cached]
      exact cellAfter_alike alike
    · rw [if_neg same, if_neg same]
  · show kvAfter since (entry.undoKV s.db.kv) = _
    rw [kv, anchored.kv]
  · show (entry.undoSubstate s.substate).bind _ = _
    rw [substate]
    exact anchored.substate
  · intro absent mark
    have stored := (anchored.steady.stored addr mark).trans absent
    simpa [stored] using held.marked mark

section

variable {entry : JournalEntry} {cell : Option StateObject}
  (replaces : entry.replacement cfg = some (addr, cell))
  (live : LiveEntry cfg s.updatedAccount base.db.kv.accounts (s.cell cfg) entry)
  (alive : ∀ so, s.cell cfg addr = some so → so.deleted = false →
    ∃ other, cell = some other ∧ other.deleted = false)
  (views : viewAt cfg base.db addr (cellAfter cfg since addr cell) =
    viewAt cfg base.db addr (cellAfter cfg since addr (s.cell cfg addr)))

include replaces live alive views

theorem overwrite (objects : AssocMap Address StateObject)
    (others : ∀ account, account ≠ addr → objects.lookup account = s.stateObjects.lookup account)
    (steady : Steady base.db.kv.accounts { s.append entry with stateObjects := objects }) :
    Anchored cfg base (entry :: since) { s.append entry with stateObjects := objects } := by
  have plain : entry.objectChange = none ∧ (∀ kv, entry.undoKV kv = kv) ∧
      ∀ sub, entry.undoSubstate sub = some sub := by
    cases entry <;> simp [replacement] at replaces
    all_goals exact ⟨rfl, fun _ => rfl, fun _ => rfl⟩
  have undoes : ∀ account, entry.undoCell cfg account
      (({ s.append entry with stateObjects := objects } : CommitStateDB).cell cfg account) =
      if account = addr then cell else s.cell cfg account := by
    intro account
    by_cases same : account = addr
    · simp [undoCell, replaces, same]
    have kept : ({ s.append entry with stateObjects := objects } : CommitStateDB).cell cfg
        account = s.cell cfg account :=
      congrArg (Option.map fun so => (s.refreshed account so).settled cfg) (others account same)
    simp [undoCell, replaces, kept]
  refine ⟨?_, ⟨⟨?_, live.create, live.reset, live.bridge⟩, anchored.live.mono (fun _ => id) ?_⟩, ?_,
    ?_, anchored.mpt, ?_, steady, anchored.marks⟩
  · show (s.journal.append entry).entries = _
    rw [Journal.entries_append, anchored.entries]
    rfl
  · intro account change changes
    simp [plain.1] at changes
  · intro account so cached kept
    rw [undoes]
    by_cases same : account = addr
    · subst same
      rw [if_pos rfl]
      exact alive so cached kept
    · exact ⟨so, by rw [if_neg same, cached], kept⟩
  · intro account
    show viewAt cfg base.db account (cellAfter cfg since account (entry.undoCell cfg account _)) = _
    rw [undoes, ← anchored.views]
    by_cases same : account = addr
    · subst same
      rw [if_pos rfl, views]
    · rw [if_neg same]
  · show kvAfter since (entry.undoKV s.db.kv) = _
    rw [plain.2.1, anchored.kv]
  · show (entry.undoSubstate s.substate).bind _ = _
    rw [plain.2.2]
    exact anchored.substate

theorem replace {new : StateObject}
    (stored : s.updatedAccount addr = true → base.db.kv.accounts addr ≠ none) :
    Anchored cfg base (entry :: since) ((s.append entry).setStateObject addr new) := by
  have steady : Steady base.db.kv.accounts (s.append entry) :=
    ⟨anchored.steady.stored, anchored.steady.missing⟩
  exact anchored.overwrite replaces live alive views _
    (fun account different => AList.lookup_insert_ne different)
    (steady.setStateObject fun absent mark => absurd absent (stored mark))

end

theorem substateChange {entry : JournalEntry}
    (plain : entry.onSubstate = true) {sub : Substate} {journal : Journal}
    (appended : journal.entries = entry :: s.journal.entries)
    (undone : entry.undoSubstate sub = some s.substate) :
    Anchored cfg base (entry :: since) { s with substate := sub, journal := journal } := by
  obtain ⟨untouched, kv, live⟩ := undo_of_onSubstate cfg plain
  refine ⟨?_, ⟨live _ _ _, ?_⟩, ?_, ?_, anchored.mpt, ?_, ⟨anchored.steady.stored,
    anchored.steady.missing⟩, anchored.marks⟩
  · rw [appended, anchored.entries]
    rfl
  · simp only [untouched]
    exact anchored.live
  · intro addr
    show viewAt cfg base.db addr (cellAfter cfg since addr (entry.undoCell cfg addr _)) = _
    rw [untouched]
    exact anchored.views addr
  · show kvAfter since (entry.undoKV s.db.kv) = _
    rw [kv, anchored.kv]
  · show (entry.undoSubstate sub).bind _ = _
    rw [undone]
    exact anchored.substate

end

/-- Undoing the newest entries does not panic and leaves a state anchored by the others. -/
theorem unwind {newer : List JournalEntry} (anchored : Anchored cfg base (newer ++ since) s) :
    ∃ u, unwind cfg newer s = .ok u ∧ ∀ journal revisions,
      journal.entries = since ++ base.journal.entries →
      Anchored cfg base since { u with journal := journal, validRevisions := revisions } := by
  obtain ⟨first, second⟩ := anchored.live.split
  have undone := anchored.substate
  simp only [substateAfter, List.foldlM_append, Option.bind_eq_bind, Option.bind_eq_some_iff] at undone
  obtain ⟨_, before, after⟩ := undone
  obtain ⟨u, unwound, whole⟩ := unwind_live anchored.steady first before
  cases before.symm.trans whole.substate
  refine ⟨u, unwound, fun journal revisions entries => ⟨entries, ?_, fun addr => ?_, ?_,
    whole.mpt.trans anchored.mpt, after, ⟨whole.steady.stored, whole.steady.missing⟩,
    fun addr mark => anchored.marks addr (whole.marks addr mark)⟩⟩
  · refine second.mono whole.marks fun addr so cached kept => ⟨so, ?_, kept⟩
    exact (whole.cells addr).trans cached
  · rw [← anchored.views, cellAfter, cellAfter, List.foldl_append]
    exact congrArg (fun cell => viewAt cfg base.db addr (cellAfter cfg since addr cell))
      (whole.cells addr)
  · rw [← anchored.kv, kvAfter, kvAfter, List.foldl_append]
    exact congrArg (kvAfter since) whole.kv

end Anchored

end Exchain.Evm
