import Exchain.Lib.AssocMap
import Exchain.Lib.Overlay

/-! Sets of changes to the fast index, alone and by version. A fast node carries no key here: it is
kept under its key everywhere. -/

namespace Exchain.Iavl

open Overlay List AList

/-- Why a call does not return: a panic with its cause, or a channel that nobody reads. -/
inductive Halt where
  | nilPointer
  | nilValue
  | emptyRootHash
  | blocked
deriving Repr, DecidableEq

structure FastNode (ν : Type) where
  versionLastUpdatedAt : Nat
  value : ν
deriving Repr, DecidableEq

structure FastNodeChanges (κ ν : Type) [DecidableEq κ] where
  additions : AssocMap κ (FastNode ν)
  removals : AssocMap κ Unit
  disjoint : ∀ k, k ∈ additions → k ∉ removals

namespace FastNodeChanges

variable {κ ν : Type} [DecidableEq κ]

/-- newFastNodeChanges, and what reset leaves. -/
def new : FastNodeChanges κ ν := ⟨∅, ∅, fun _ inside => absurd inside (by simp)⟩

variable (changes : FastNodeChanges κ ν)

def checkAdditions (key : κ) : Bool := key ∈ changes.additions

def checkRemovals (key : κ) : Bool := key ∈ changes.removals

def get (key : κ) : Option (Option (FastNode ν)) :=
  match changes.additions.lookup key with
  | some node => some (some node)
  | none => if changes.checkRemovals key then some none else none

def add (key : κ) (node : FastNode ν) : FastNodeChanges κ ν where
  additions := changes.additions.insert key node
  removals := changes.removals.erase key
  disjoint k inside := by
    rw [mem_erase]
    rintro ⟨apart, removed⟩
    rcases mem_insert _ |>.mp inside with same | inside
    · exact apart same
    · exact changes.disjoint k inside removed

def remove (key : κ) : FastNodeChanges κ ν where
  additions := changes.additions.erase key
  removals := changes.removals.insert key ()
  disjoint k inside := by
    rw [mem_erase] at inside
    rw [mem_insert]
    rintro (same | removed)
    · exact inside.1 same
    · exact changes.disjoint k inside.2 removed

def mergePrev (prev : FastNodeChanges κ ν) : FastNodeChanges κ ν :=
  let withAdditions := prev.additions.entries.foldl (fun acc entry =>
    if !acc.checkAdditions entry.1 && !acc.checkRemovals entry.1 then acc.add entry.1 entry.2
    else acc) changes
  prev.removals.entries.foldl (fun acc entry =>
    if !acc.checkAdditions entry.1 && !acc.checkRemovals entry.1 then acc.remove entry.1
    else acc) withAdditions

def mergeLater (later : FastNodeChanges κ ν) : FastNodeChanges κ ν :=
  later.removals.entries.foldl (fun acc entry => acc.remove entry.1)
    (later.additions.entries.foldl (fun acc entry => acc.add entry.1 entry.2) changes)

variable (changes : FastNodeChanges κ ν)

theorem get_eq_none (key : κ) :
    changes.get key = none ↔ (!changes.checkAdditions key && !changes.checkRemovals key) = true := by
  unfold get checkAdditions
  cases added : changes.additions.lookup key with
  | none =>
    have absent : key ∉ changes.additions := lookup_eq_none.mp added
    cases removed : changes.checkRemovals key <;> simp [absent]
  | some node =>
    have present : key ∈ changes.additions := lookup_isSome.mp (by simp [added])
    simp [present]

@[simp] theorem get_new : (new : FastNodeChanges κ ν).get = silent := by
  funext key
  simp [get, new, checkRemovals, silent]

theorem get_add (key k : κ) (node : FastNode ν) :
    (changes.add key node).get k = if k = key then some (some node) else changes.get k := by
  by_cases same : k = key
  · subst same
    simp [get, add]
  · simp [get, add, checkRemovals, same]

theorem get_remove (key k : κ) :
    (changes.remove key).get k = if k = key then some none else changes.get k := by
  by_cases same : k = key
  · subst same
    simp [get, remove, checkRemovals]
  · simp [get, remove, checkRemovals, same]

theorem get_of_addition {changes : FastNodeChanges κ ν} {key : κ} {node : FastNode ν}
    (added : changes.additions.lookup key = some node) : changes.get key = some (some node) := by
  simp [get, added]

theorem get_of_removal {changes : FastNodeChanges κ ν} {key : κ} (removed : key ∈ changes.removals) :
    changes.get key = some none := by
  have absent : changes.additions.lookup key = none := by
    rw [lookup_eq_none]
    exact fun added => changes.disjoint key added removed
  simp [get, absent, checkRemovals, removed]

theorem get_eq_removed_iff (key : κ) : changes.get key = some none ↔ key ∈ changes.removals := by
  refine ⟨fun said => ?_, get_of_removal⟩
  unfold get checkRemovals at said
  split at said
  · simp at said
  split at said
  · rename_i removed
    simpa using removed
  · simp at said

theorem get_eq_added_iff (key : κ) (node : FastNode ν) :
    changes.get key = some (some node) ↔ changes.additions.lookup key = some node := by
  refine ⟨fun said => ?_, get_of_addition⟩
  unfold get at said
  split at said
  · simp_all
  · split at said <;> simp at said

theorem get_eq (k : κ) : changes.get k = ((changes.additions.entries.dlookup k).map some).or
      ((changes.removals.entries.dlookup k).map fun _ => none) := by
  have listed : k ∈ changes.removals ↔ changes.removals.entries.dlookup k ≠ none :=
    dlookup_isSome.symm.trans Option.isSome_iff_ne_none
  simp only [get, checkRemovals, AList.lookup, listed]
  cases changes.additions.entries.dlookup k <;> cases changes.removals.entries.dlookup k <;> simp

theorem get_mergeLater (later : FastNodeChanges κ ν) :
    (changes.mergeLater later).get = atop later.get changes.get := by
  funext k
  rw [mergeLater, foldl_entries get (fun _ _ => some none)
      (fun acc entry k => acc.get_remove entry.1 k) later.removals.nodupKeys,
    foldl_entries get (fun node _ => some (some node))
      (fun acc entry k => acc.get_add entry.1 k entry.2) later.additions.nodupKeys,
    atop, get_eq later k]
  cases removed : later.removals.entries.dlookup k with
  | none => cases later.additions.entries.dlookup k <;> rfl
  | some _ =>
    have absent := dlookup_eq_none.mpr fun added =>
      later.disjoint k added (dlookup_isSome.mp (Option.isSome_of_eq_some removed))
    rw [absent]
    rfl

theorem get_missing {changed : FastNodeChanges κ ν} {key : κ} {said : Option (FastNode ν)}
    (change : ∀ k, changed.get k = if k = key then some said else changes.get k) (k : κ) :
    (if !changes.checkAdditions key && !changes.checkRemovals key then changed else changes).get k =
      if k = key then (changes.get k).or (some said) else changes.get k := by
  by_cases same : k = key
  · subst same
    cases said : changes.get k with
    | none => simp [(get_eq_none changes k).mp said, change]
    | some _ =>
      rw [if_neg]
      · simp [said]
      · rw [← get_eq_none, said]
        simp
  · split <;> simp [change, same]

theorem get_mergePrev (prev : FastNodeChanges κ ν) :
    (changes.mergePrev prev).get = atop changes.get prev.get := by
  funext k
  simp only [mergePrev]
  rw [foldl_entries get (fun _ old => old.or (some none))
      (fun acc entry => acc.get_missing (fun k => acc.get_remove entry.1 k)) prev.removals.nodupKeys,
    foldl_entries get (fun node old => old.or (some (some node)))
      (fun acc entry => acc.get_missing (fun k => acc.get_add entry.1 k entry.2))
      prev.additions.nodupKeys, atop, get_eq prev k]
  cases prev.additions.entries.dlookup k <;> cases prev.removals.entries.dlookup k <;>
    cases changes.get k <;> rfl

end FastNodeChanges

structure FastNodeChangesWithVersion (κ ν : Type) [DecidableEq κ] where
  versions : List Nat
  fncMap : AssocMap Nat (FastNodeChanges κ ν)

namespace FastNodeChangesWithVersion

variable {κ ν : Type} [DecidableEq κ]

def new : FastNodeChangesWithVersion κ ν := ⟨[], ∅⟩

variable (fncv : FastNodeChangesWithVersion κ ν)

def add (version : Nat) (changes : FastNodeChanges κ ν) : FastNodeChangesWithVersion κ ν :=
  ⟨fncv.versions ++ [version], fncv.fncMap.insert version changes⟩

/-- Only the first version is removed. -/
def remove (version : Nat) : FastNodeChangesWithVersion κ ν :=
  if fncv.versions.head? = some version then ⟨fncv.versions.tail, fncv.fncMap.erase version⟩
  else fncv

/-- The loop of get; a version without changes is a nil pointer. -/
def getFrom (fncMap : AssocMap Nat (FastNodeChanges κ ν)) (key : κ) :
    List Nat → Except Halt (Option (Option (FastNode ν)))
  | [] => .ok none
  | version :: older =>
    match fncMap.lookup version with
    | none => .error .nilPointer
    | some changes =>
      match changes.get key with
      | some said => .ok (some said)
      | none => getFrom fncMap key older

def get (key : κ) :
    Except Halt (Option (Option (FastNode ν))) := getFrom fncv.fncMap key fncv.versions.reverse

/-- The loop of expand, one merge for each version. -/
def expandFrom (fncMap : AssocMap Nat (FastNodeChanges κ ν)) :
    FastNodeChanges κ ν → List Nat → Except Halt (FastNodeChanges κ ν)
  | ret, [] => .ok ret
  | ret, version :: older =>
    match fncMap.lookup version with
    | none => .error .nilPointer
    | some changes => expandFrom fncMap (ret.mergePrev changes) older

def expand (changes : FastNodeChanges κ ν) :
    Except Halt (FastNodeChanges κ ν) := expandFrom fncv.fncMap changes fncv.versions.reverse

/-- What the changes of some versions say together, the newest version first. -/
def saidBy (fncMap : AssocMap Nat (FastNodeChanges κ ν)) : List Nat → Delta κ (FastNode ν)
  | [] => silent
  | version :: older => atop ((fncMap.lookup version).elim silent FastNodeChanges.get) (saidBy fncMap older)

def said : Delta κ (FastNode ν) :=
  saidBy fncv.fncMap fncv.versions.reverse

def Whole : Prop :=
  ∀ version ∈ fncv.versions, ∃ changes, fncv.fncMap.lookup version = some changes

variable {fncMap : AssocMap Nat (FastNodeChanges κ ν)} {fncv : FastNodeChangesWithVersion κ ν}
  {versions : List Nat}

@[simp] theorem said_new : (new : FastNodeChangesWithVersion κ ν).said = silent := rfl

variable (whole : ∀ version ∈ versions, ∃ changes, fncMap.lookup version = some changes)
include whole

theorem getFrom_eq (key : κ) :
    getFrom fncMap key versions = .ok (saidBy fncMap versions key) := by
  induction versions with
  | nil => rfl
  | cons version older ih =>
    obtain ⟨changes, found⟩ := whole version mem_cons_self
    have rest := ih fun v inside => whole v (mem_cons_of_mem _ inside)
    cases said : changes.get key <;> simp [getFrom, saidBy, atop, found, said, rest]

omit whole in
theorem Whole.get_eq (whole : fncv.Whole) (key : κ) : fncv.get key = .ok (fncv.said key) :=
  getFrom_eq (fun version inside => whole version (mem_reverse.mp inside)) key

theorem expandFrom_eq
    (ret : FastNodeChanges κ ν) : ∃ expanded, expandFrom fncMap ret versions = .ok expanded ∧
      expanded.get = atop ret.get (saidBy fncMap versions) := by
  induction versions generalizing ret with
  | nil => exact ⟨ret, rfl, (atop_silent _).symm⟩
  | cons version older ih =>
    obtain ⟨changes, found⟩ := whole version mem_cons_self
    obtain ⟨expanded, done, eq⟩ := ih (fun v inside => whole v (mem_cons_of_mem _ inside))
      (ret.mergePrev changes)
    refine ⟨expanded, by simpa [expandFrom, found] using done, ?_⟩
    rw [eq, FastNodeChanges.get_mergePrev]
    funext k
    simp [atop, saidBy, found, Option.or_assoc]

omit whole

theorem Whole.expand_eq (whole : fncv.Whole) (changes : FastNodeChanges κ ν) :
    ∃ expanded, fncv.expand changes = .ok expanded ∧ expanded.get = atop changes.get fncv.said :=
  expandFrom_eq (fun version inside => whole version (mem_reverse.mp inside)) changes

theorem saidBy_append (fncMap : AssocMap Nat (FastNodeChanges κ ν)) (newer older : List Nat) :
    saidBy fncMap (newer ++ older) = atop (saidBy fncMap newer) (saidBy fncMap older) := by
  induction newer with
  | nil => rfl
  | cons _ _ ih =>
    rw [cons_append, saidBy, saidBy, ih]
    funext k
    simp [atop, Option.or_assoc]

theorem saidBy_congr {fncMap' : AssocMap Nat (FastNodeChanges κ ν)}
    (same : ∀ version ∈ versions, fncMap'.lookup version = fncMap.lookup version) :
    saidBy fncMap' versions = saidBy fncMap versions := by
  induction versions with
  | nil => rfl
  | cons version older ih =>
    rw [saidBy, saidBy, same version mem_cons_self,
      ih fun v inside => same v (mem_cons_of_mem _ inside)]

theorem said_add {version : Nat}
    (absent : version ∉ fncv.versions) (changes : FastNodeChanges κ ν) :
    (fncv.add version changes).said = atop changes.get fncv.said := by
  have others : saidBy (fncv.fncMap.insert version changes) fncv.versions.reverse = fncv.said := by
    refine saidBy_congr fun v inside => ?_
    rw [lookup_insert_if, if_neg]
    rintro rfl
    exact absent (mem_reverse.mp inside)
  rw [said, add, reverse_append, reverse_singleton, singleton_append, saidBy, others]
  simp

theorem Whole.add (whole : fncv.Whole) (version : Nat)
    (changes : FastNodeChanges κ ν) : (fncv.add version changes).Whole := by
  intro v inside
  rw [FastNodeChangesWithVersion.add, lookup_insert_if]
  by_cases same : v = version
  · exact ⟨changes, if_pos same⟩
  rw [if_neg same]
  have older : v ∈ fncv.versions := by
    simpa [FastNodeChangesWithVersion.add, same] using inside
  exact whole v older

end FastNodeChangesWithVersion

end Exchain.Iavl
