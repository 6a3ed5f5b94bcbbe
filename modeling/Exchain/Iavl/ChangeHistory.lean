import Exchain.Iavl.FastNodeChanges
import Exchain.Lib.Run

namespace Exchain.Iavl

open Overlay List AList Run

variable {κ ν : Type} [DecidableEq κ]

namespace FastNodeChanges

def mergePrevNil : (changes prev : Option (FastNodeChanges κ ν)) → Option (FastNodeChanges κ ν)
  | none, prev => prev
  | some changes, none => some changes
  | some changes, some prev => some (changes.mergePrev prev)

def applyTo (changes : FastNodeChanges κ ν) (base : κ → Option (FastNode ν)) : κ → Option (FastNode ν) :=
  fun key => if changes.checkRemovals key then none else (changes.additions.lookup key).or (base key)

variable (changes : FastNodeChanges κ ν) (base : κ → Option (FastNode ν))

theorem applyTo_eq : changes.applyTo base = on changes.get base := by
  funext key
  rw [applyTo, on]
  cases removed : changes.checkRemovals key with
  | true => rw [get_of_removal (by simpa [checkRemovals] using removed), if_pos rfl, Option.getD_some]
  | false =>
    rw [get, removed, if_neg Bool.false_ne_true]
    cases changes.additions.lookup key <;> rfl

theorem applyTo_mergePrev (prev : FastNodeChanges κ ν) :
    (changes.mergePrev prev).applyTo base = changes.applyTo (prev.applyTo base) := by
  simp only [applyTo_eq, get_mergePrev, atop_on]

theorem applyTo_mergeLater (later : FastNodeChanges κ ν) :
    (changes.mergeLater later).applyTo base = later.applyTo (changes.applyTo base) := by
  simp only [applyTo_eq, get_mergeLater, atop_on]

theorem applyTo_new : (new : FastNodeChanges κ ν).applyTo base = base := by
  rw [applyTo_eq, get_new, silent_on]

end FastNodeChanges

namespace FastNodeChangesWithVersion

def expandNil (fncv : FastNodeChangesWithVersion κ ν) (changes : Option (FastNodeChanges κ ν)) :
    Except Halt (FastNodeChanges κ ν) := fncv.expand (changes.getD .new)

inductive Op (κ ν : Type) [DecidableEq κ]
  | add (version : Nat) (changes : FastNodeChanges κ ν)
  | remove (version : Nat)

def step (fncv : FastNodeChangesWithVersion κ ν) : Op κ ν → FastNodeChangesWithVersion κ ν
  | .add version changes => fncv.add version changes
  | .remove version => fncv.remove version

/-- A version that is added is not there yet, as when versions are added in ascending order. -/
def Fresh (fncv : FastNodeChangesWithVersion κ ν) : Op κ ν → Prop
  | .add version _ => version ∉ fncv.versions
  | .remove _ => True

/-- Versioned sets, the oldest first. -/
abbrev History (κ ν : Type) [DecidableEq κ] := List (Nat × FastNodeChanges κ ν)

def record (history : History κ ν) : Op κ ν → History κ ν
  | .add version changes => history ++ [(version, changes)]
  | .remove version => if history.head?.map Prod.fst = some version then history.tail else history

def compose (history : History κ ν) (start : FastNodeChanges κ ν) : FastNodeChanges κ ν :=
  history.foldl (fun all entry => all.mergeLater entry.2) start

structure Records (fncv : FastNodeChangesWithVersion κ ν) (history : History κ ν) : Prop where
  versions : fncv.versions = history.map Prod.fst
  nodup : fncv.versions.Nodup
  stored : ∀ entry ∈ history, fncv.fncMap.lookup entry.1 = some entry.2

variable {fncv : FastNodeChangesWithVersion κ ν} {history : History κ ν}

theorem Records.add (records : Records fncv history) {version : Nat} (fresh : version ∉ fncv.versions)
    (changes : FastNodeChanges κ ν) : Records (fncv.add version changes) (history ++ [(version, changes)]) := by
  refine ⟨by simp [FastNodeChangesWithVersion.add, records.versions], ?_, fun entry inside => ?_⟩
  · rw [FastNodeChangesWithVersion.add, nodup_append_comm]
    exact records.nodup.cons fresh
  rw [FastNodeChangesWithVersion.add, lookup_insert_if]
  rcases mem_append.mp inside with old | new
  · rw [if_neg, records.stored entry old]
    rintro rfl
    exact fresh (records.versions ▸ mem_map_of_mem old)
  · rw [mem_singleton.mp new, if_pos rfl]

theorem Records.remove (records : Records fncv history) (version : Nat) :
    Records (fncv.remove version) (record history (.remove version)) := by
  have head : fncv.versions.head? = history.head?.map Prod.fst := by rw [records.versions, head?_map]
  rw [FastNodeChangesWithVersion.remove, record, head]
  split
  · cases history with
    | nil => contradiction
    | cons entry rest =>
      have nodup := records.versions ▸ records.nodup
      rw [map_cons, nodup_cons] at nodup
      refine ⟨by rw [records.versions]; rfl, records.nodup.tail, fun other inside => ?_⟩
      rw [lookup_erase_if, if_neg, records.stored other (mem_cons_of_mem entry inside)]
      rename_i front
      rintro rfl
      have same : entry.1 = other.1 := Option.some.inj front
      exact nodup.1 (same ▸ mem_map_of_mem inside)
  · exact records

theorem get_compose (start : FastNodeChanges κ ν)
    (stored : ∀ entry ∈ history, fncv.fncMap.lookup entry.1 = some entry.2) :
    (compose history start).get = atop (saidBy fncv.fncMap (history.map Prod.fst).reverse) start.get := by
  induction history generalizing start with
  | nil => rfl
  | cons entry rest ih =>
    rw [forall_mem_cons] at stored
    refine (ih _ stored.2).trans ?_
    rw [map_cons, reverse_cons, saidBy_append, FastNodeChanges.get_mergeLater, saidBy, stored.1]
    funext k
    simp [atop, saidBy, silent, Option.or_assoc]

theorem applyTo_compose (start : FastNodeChanges κ ν) (base : κ → Option (FastNode ν)) :
    (compose history start).applyTo base =
      history.foldl (fun base entry => entry.2.applyTo base) (start.applyTo base) := by
  induction history generalizing start with
  | nil => rfl
  | cons entry rest ih =>
    refine (ih _).trans ?_
    rw [FastNodeChanges.applyTo_mergeLater]
    rfl

theorem records_exec {ops : List (Op κ ν)} (fresh : Along step Fresh (new : FastNodeChangesWithVersion κ ν) ops) :
    Records (exec step new ops) (exec record [] ops) := by
  refine related_exec Records (fun fncv history op records fresh => ?_) ⟨rfl, nodup_nil, nofun⟩ fresh
  cases op with
  | add version changes => exact records.add fresh changes
  | remove version => exact records.remove version

theorem Records.said_eq (records : Records fncv history) : fncv.said = (compose history .new).get := by
  rw [get_compose _ records.stored, FastNodeChanges.get_new, atop_silent, said, records.versions]

theorem Records.whole (records : Records fncv history) : fncv.Whole := by
  intro version inside
  rw [records.versions] at inside
  obtain ⟨entry, listed, rfl⟩ := mem_map.mp inside
  exact ⟨entry.2, records.stored entry listed⟩

/-- The two sides of a set are disjoint, a merge acts as the older set and then the newer one, and
so do the versioned sets with the newest one. -/
theorem changes_compose :
    (∀ (changes : FastNodeChanges κ ν) key, key ∈ changes.additions → key ∉ changes.removals) ∧
    (∀ (older newer : FastNodeChanges κ ν) base,
      (newer.mergePrev older).applyTo base = newer.applyTo (older.applyTo base) ∧
      (older.mergeLater newer).applyTo base = newer.applyTo (older.applyTo base)) ∧
    (∀ (older newer : Option (FastNodeChanges κ ν)) base,
      ((FastNodeChanges.mergePrevNil newer older).getD .new).applyTo base =
        (newer.getD .new).applyTo ((older.getD .new).applyTo base)) ∧
    ∀ ops : List (Op κ ν), Along step Fresh new ops →
      (∀ newest, ∃ expanded, (exec step new ops).expandNil newest = .ok expanded ∧
        ∀ base, expanded.applyTo base = (newest.getD .new).applyTo
          ((exec record [] ops).foldl (fun base entry => entry.2.applyTo base) base)) ∧
      ∀ key, (exec step new ops).get key = .ok ((compose (exec record [] ops) .new).get key) := by
  refine ⟨fun changes => changes.disjoint, fun older newer base => ⟨newer.applyTo_mergePrev base older,
    older.applyTo_mergeLater base newer⟩, fun older newer base => ?_, fun ops fresh => ?_⟩
  · cases newer with
    | none => exact (FastNodeChanges.applyTo_new _).symm
    | some newer =>
      cases older with
      | none => exact congrArg newer.applyTo (FastNodeChanges.applyTo_new base).symm
      | some older => exact newer.applyTo_mergePrev base older
  have records := records_exec fresh
  refine ⟨fun newest => ?_, fun key => by rw [records.whole.get_eq, records.said_eq]⟩
  obtain ⟨expanded, done, said⟩ := records.whole.expand_eq (newest.getD .new)
  refine ⟨expanded, done, fun base => ?_⟩
  rw [FastNodeChanges.applyTo_eq, said, records.said_eq, atop_on, ← FastNodeChanges.applyTo_eq,
    ← FastNodeChanges.applyTo_eq, applyTo_compose, FastNodeChanges.applyTo_new]

/-- A key that one version adds and the next one removes. -/
theorem changes_compose_two :
    let ops : List (Op Nat Nat) := [.add 1 (.add .new 7 ⟨1, 5⟩), .add 2 (.remove .new 7)]
    Along step Fresh new ops ∧ (exec step new ops).get 7 = .ok (some none) := by
  have fresh : Along step Fresh new ([.add 1 (.add .new 7 ⟨1, 5⟩), .add 2 (.remove .new 7)] : List (Op Nat Nat)) :=
    ⟨by simp [Fresh, new], by simp [Fresh, step, add, new], trivial⟩
  exact ⟨fresh, ((changes_compose.2.2.2 _ fresh).2 7).trans rfl⟩

end FastNodeChangesWithVersion

end Exchain.Iavl
