import Exchain.Evm.ObjectView

namespace Exchain.Evm

namespace CommitStateDB

variable (cfg : Config)

/-- A cached object as the next access returns it. -/
def refreshed (s : CommitStateDB) (addr : Address) (so : StateObject) : StateObject :=
  if s.updatedAccount addr then (s.updateAccInfo addr so).getD so else so

def cell (s : CommitStateDB) (addr : Address) : Option StateObject :=
  (s.stateObjects.lookup addr).map fun so => (s.refreshed addr so).settled cfg

/-- What the getters see of an address whose cell is given. -/
def viewAt (db : Db) (addr : Address) : Option StateObject → Option View
  | some so => if so.deleted then none else some (so.view cfg db addr)
  | none => (db.kv.accounts addr).map fun account =>
    (loadObject cfg db addr account).view cfg db addr

end CommitStateDB

namespace JournalEntry

variable (cfg : Config)

/-- The change that undoing an entry makes to the object of an address. -/
def objectChange : JournalEntry → Option (Address × (StateObject → StateObject))
  | suicideChange account prev prevBalance =>
    some (account, fun so => (so.setSuicided prev).setBalance prevBalance)
  | balanceChange account prev => some (account, (·.setBalance prev))
  | nonceChange account prev => some (account, (·.setNonce prev))
  | codeChange account prevHash prevCode => some (account, (·.setCode prevHash prevCode))
  | storageChange account key prevValue => some (account, (·.setState key prevValue))
  | _ => none

/-- The cell that undoing an entry puts in place of an address's present one. -/
def replacement : JournalEntry → Option (Address × Option StateObject)
  | createObjectChange account => some (account, none)
  | resetObjectChange account prev => some (account, some (prev.settled cfg))
  | _ => none

def undoCell (entry : JournalEntry) (addr : Address) (cell : Option StateObject) :
    Option StateObject :=
  match entry.replacement cfg with
  | some (account, other) => if addr = account then other else cell
  | none =>
    match entry.objectChange with
    | some (account, change) => if addr = account then cell.map change else cell
    | none => cell

def undoKV : JournalEntry → KV → KV
  | cmChange sets, kv => kv.write sets
  | _, kv => kv

def undoSubstate : JournalEntry → Substate → Option Substate
  | refundChange prev, sub => some { sub with refund := prev }
  | addLogChange txhash, sub => some { sub with
      logs := Function.update sub.logs txhash (sub.logs txhash).dropLast
      logSize := sub.logSize - 1 }
  | addPreimageChange hash, sub => some { sub with
      preimages := Function.update sub.preimages hash none }
  | accessListAddAccountChange address, sub =>
    some { sub with accessList := sub.accessList.deleteAddress address }
  | accessListAddSlotChange address slot, sub =>
    (sub.accessList.deleteSlot address slot).map fun al => { sub with accessList := al }
  | _, sub => some sub

def onSubstate : JournalEntry → Bool
  | refundChange _ | addLogChange _ | addPreimageChange _ | touchChange _
  | accessListAddAccountChange _ | accessListAddSlotChange _ _ => true
  | _ => false

end JournalEntry

open CommitStateDB JournalEntry StateObject

/-- The cell of an address after the given entries are undone, the newest first. -/
def cellAfter (cfg : Config) (entries : List JournalEntry) (addr : Address)
    (cell : Option StateObject) : Option StateObject :=
  entries.foldl (fun cell entry => entry.undoCell cfg addr cell) cell

def kvAfter (entries : List JournalEntry) (kv : KV) : KV :=
  entries.foldl (fun kv entry => entry.undoKV kv) kv

def substateAfter (entries : List JournalEntry) (sub : Substate) : Option Substate :=
  entries.foldlM (fun sub entry => entry.undoSubstate sub) sub

/-- Some entry, once undone, settles the cell of the address whatever it was. -/
def Overwrites (cfg : Config) (entries : List JournalEntry) (addr : Address) : Prop :=
  ∃ entry ∈ entries, ∃ cell, entry.replacement cfg = some (addr, cell)

section

variable {cfg : Config} {db : Db} {addr : Address}

section

variable {entry : JournalEntry} {change : StateObject → StateObject}
  (changes : entry.objectChange = some (addr, change))

include changes

theorem objectChange_alike {so other : StateObject} (alike : so.Alike cfg db addr other) :
    (change so).Alike cfg db addr (change other) := by
  obtain ⟨deleted, view⟩ := alike
  have storage : so.stateAt cfg db addr = other.stateAt cfg db addr := congrArg View.storage view
  cases entry <;> cases changes
  all_goals refine ⟨deleted, ?_⟩
  · rw [view_setBalance, view_setBalance, view_setSuicided, view_setSuicided, view]
  · rw [view_setBalance, view_setBalance, view]
  · rw [view_setNonce, view_setNonce, view]
  · rw [view_setState, view_setState, view, storage]
  · rw [view_setCode, view_setCode, view]

theorem objectChange_deleted (so : StateObject) : (change so).deleted = so.deleted := by
  cases entry <;> cases changes <;> rfl

end

variable (cfg addr) in
theorem undoCell_cases (entry : JournalEntry) :
    (∃ other, entry.replacement cfg = some (addr, other) ∧
        ∀ cell, entry.undoCell cfg addr cell = other) ∨
      (∃ change, entry.objectChange = some (addr, change) ∧
        ∀ cell, entry.undoCell cfg addr cell = cell.map change) ∨
      ∀ cell, entry.undoCell cfg addr cell = cell := by
  simp only [undoCell]
  cases replaced : entry.replacement cfg with
  | some replacement =>
    obtain ⟨account, other⟩ := replacement
    by_cases same : addr = account
    · subst same
      exact .inl ⟨other, rfl, by simp⟩
    · exact .inr (.inr (by simp [same]))
  | none =>
    cases changed : entry.objectChange with
    | none => exact .inr (.inr (by simp))
    | some change =>
      obtain ⟨account, change⟩ := change
      by_cases same : addr = account
      · subst same
        exact .inr (.inl ⟨change, rfl, by simp⟩)
      · exact .inr (.inr (by simp [same]))

variable {entries : List JournalEntry}

theorem cellAfter_overwritten
    (overwritten : Overwrites cfg entries addr) (cell other : Option StateObject) :
    cellAfter cfg entries addr cell = cellAfter cfg entries addr other := by
  induction entries generalizing cell other with
  | nil => simp [Overwrites] at overwritten
  | cons _ _ ih =>
    obtain ⟨found, inside, replaced, replaces⟩ := overwritten
    rcases List.mem_cons.mp inside with rfl | later
    · simp [cellAfter, undoCell, replaces]
    · exact ih ⟨found, later, replaced, replaces⟩ _ _

theorem cellAfter_alike {so other : StateObject} (alike : so.Alike cfg db addr other) :
    viewAt cfg db addr (cellAfter cfg entries addr (some so)) =
      viewAt cfg db addr (cellAfter cfg entries addr (some other)) := by
  induction entries generalizing so other with
  | nil => simp [cellAfter, viewAt, alike.1, alike.2]
  | cons entry older ih =>
    simp only [cellAfter, List.foldl_cons]
    rcases undoCell_cases cfg addr entry with ⟨cell, -, undone⟩ | ⟨change, changes, undone⟩ | undone
    · rw [undone, undone]
    · rw [undone, undone]
      exact ih (objectChange_alike changes alike)
    · rw [undone, undone]
      exact ih alike

end

/-- Undoing the entry finds what it relies on: a live object to change, and no mark that would have
what it puts into the cache reloaded with something else. -/
structure LiveEntry (cfg : Config) (marked : Address → Bool) (accounts : Address → Option Account)
    (cells : Address → Option StateObject) (entry : JournalEntry) : Prop where
  change : ∀ addr change, entry.objectChange = some (addr, change) →
    ∃ so, cells addr = some so ∧ so.deleted = false
  create : ∀ addr, entry = .createObjectChange addr → marked addr = false
  reset : ∀ addr prev, entry = .resetObjectChange addr prev → marked addr = true →
    (accounts addr).map (·.withCodeHash cfg) = some (prev.account.withCodeHash cfg)
  bridge : ∀ sets, entry = .cmChange sets → ∀ addr, marked addr = false

def Live (cfg : Config) (marked : Address → Bool) (accounts : Address → Option Account) :
    List JournalEntry → (Address → Option StateObject) → Prop
  | [], _ => True
  | entry :: older, cells =>
    LiveEntry cfg marked accounts cells entry ∧
      Live cfg marked accounts older fun addr => entry.undoCell cfg addr (cells addr)

theorem undo_of_onSubstate (cfg : Config) {entry : JournalEntry} (plain : entry.onSubstate = true) :
    (∀ addr cell, entry.undoCell cfg addr cell = cell) ∧ (∀ kv, entry.undoKV kv = kv) ∧
      ∀ marked accounts cells, LiveEntry cfg marked accounts cells entry := by
  cases entry <;> simp only [onSubstate, Bool.false_eq_true] at plain
  all_goals
    exact ⟨fun _ _ => rfl, fun _ => rfl, fun _ _ _ =>
      ⟨by simp [objectChange], by simp, by simp, by simp⟩⟩

variable {cfg : Config} {marked : Address → Bool} {accounts : Address → Option Account}
  {cells : Address → Option StateObject}

theorem Live.mono {entries : List JournalEntry}
    (live : Live cfg marked accounts entries cells) {fewer : Address → Bool}
    (marks : ∀ addr, fewer addr = true → marked addr = true) {more : Address → Option StateObject}
    (alive : ∀ addr so, cells addr = some so → so.deleted = false →
      ∃ other, more addr = some other ∧ other.deleted = false) :
    Live cfg fewer accounts entries more := by
  have unmarked : ∀ addr, marked addr = false → fewer addr = false := by
    intro addr clear
    by_contra still
    rw [Bool.not_eq_false] at still
    simp [marks addr still] at clear
  induction entries generalizing cells more with
  | nil => trivial
  | cons entry older ih =>
    obtain ⟨here, below⟩ := live
    refine ⟨⟨?_, ?_, ?_, ?_⟩, ih below ?_⟩
    · intro addr change changes
      obtain ⟨so, cached, kept⟩ := here.change addr change changes
      exact alive addr so cached kept
    · exact fun addr same => unmarked addr (here.create addr same)
    · exact fun addr prev same mark => here.reset addr prev same (marks addr mark)
    · exact fun sets same addr => unmarked addr (here.bridge sets same addr)
    · intro addr so cached kept
      rcases undoCell_cases cfg addr entry with ⟨cell, -, undone⟩ | ⟨change, changes, undone⟩ | undone
      · rw [undone] at cached
        exact ⟨so, by rw [undone, cached], kept⟩
      · rw [undone, Option.map_eq_some_iff] at cached
        obtain ⟨before, cached, rfl⟩ := cached
        rw [objectChange_deleted changes] at kept
        obtain ⟨other, found, left⟩ := alive addr before cached kept
        exact ⟨change other, by rw [undone, found, Option.map_some],
          (objectChange_deleted changes other).trans left⟩
      · rw [undone] at cached ⊢
        exact alive addr so cached kept

theorem Live.split {newer older : List JournalEntry}
    (live : Live cfg marked accounts (newer ++ older) cells) :
    Live cfg marked accounts newer cells ∧
      Live cfg marked accounts older fun addr => cellAfter cfg newer addr (cells addr) := by
  induction newer generalizing cells with
  | nil => exact ⟨trivial, live⟩
  | cons _ _ ih =>
    obtain ⟨here, below⟩ := live
    obtain ⟨first, second⟩ := ih below
    exact ⟨⟨here, first⟩, second⟩

theorem Live.cellAfter_eq_self {entries : List JournalEntry}
    (live : Live cfg marked accounts entries cells)
    {addr : Address} (exposed : ¬ Overwrites cfg entries addr)
    (dead : ∀ so, cells addr = some so → so.deleted = true) (cell : Option StateObject) :
    cellAfter cfg entries addr cell = cell := by
  induction entries generalizing cells with
  | nil => rfl
  | cons entry older ih =>
    obtain ⟨here, below⟩ := live
    have untouched : ∀ cell, entry.undoCell cfg addr cell = cell := by
      rcases undoCell_cases cfg addr entry with ⟨cell, replaces, -⟩ | ⟨change, changes, -⟩ | undone
      · exact absurd ⟨entry, List.mem_cons_self, cell, replaces⟩ exposed
      · obtain ⟨so, cached, kept⟩ := here.change addr change changes
        simp [dead so cached] at kept
      · exact undone
    rw [cellAfter, List.foldl_cons, untouched]
    refine ih below ?_ (fun so cached => dead so ?_)
    · rintro ⟨found, inside, replaced⟩
      exact exposed ⟨found, List.mem_cons_of_mem _ inside, replaced⟩
    · rwa [untouched] at cached

end Exchain.Evm
