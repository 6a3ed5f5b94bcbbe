import Exchain.Iavl.IsolatedSaves

namespace Exchain.Iavl

open Overlay SortedPairs PartialRun MutableTree

variable {κ ν : Type} [LinearOrder κ]

/-- A disk with older versions: their trees are sorted, and an index said to belong to the newest
version tells the truth about all. -/
structure Disk.Historic (disk : Disk κ ν) : Prop where
  zero : ∀ p ∈ disk.versions, p.1 = 0 → p.2 = none
  sorted : ∀ p ∈ disk.versions, ∀ node, p.2 = some node → node.Sorted
  truthful : disk.storageVersion = .fast disk.latestVersion →
    Truthful disk.fast.lookup disk.versions

variable {disk : Disk κ ν}

theorem Disk.Historic.newest (historic : disk.Historic)
    {p : Nat × Option (Node κ ν)} (inside : p ∈ disk.versions) (present : p.2 ≠ none)
    (newest : p.1 = disk.latestVersion) : p.2 = disk.latestRoot := by
  have positive : disk.latestVersion ≠ 0 := fun zero =>
    present (historic.zero p inside (newest.trans zero))
  have stored := (disk.mem_versions p.1 p.2).mp inside
  rw [latestRoot, if_neg positive, ← newest, stored]
  rfl

structure Loaded (disk : Disk κ ν) (tree : MutableTree κ ν) : Prop where
  version : tree.version = disk.latestVersion
  root : tree.root = disk.latestRoot
  unsaved : tree.unsavedFastNodes = .new
  idle : tree.commitEvent = none
  running : tree.stopped = false
  roots : tree.ndb.disk.roots = disk.roots
  latestMemory : tree.ndb.latestMemoryVersion = 0
  live : tree.ndb.live = tree.ndb.disk.fast.lookup
  index : (tree.ndb.disk.fast = disk.fast ∧ disk.storageVersion = .fast disk.latestVersion) ∨
    ∀ k node, tree.ndb.disk.fast.lookup k = some node →
      node.versionLastUpdatedAt = disk.latestVersion

theorem loaded_load (loadable : disk.Loadable) : Loaded disk (.load disk) := by
  unfold load enableFastStorage
  simp only [NodeDB.getLatestVersion, NodeDB.new, if_pos]
  split
  · refine ⟨rfl, rfl, rfl, rfl, rfl, rfl, rfl, ?_, .inr fun k node found => ?_⟩
    · simp [NodeDB.live]
    change (rebuilt disk.latestVersion disk.latestRoot).lookup k = some node at found
    rw [lookup_rebuilt _ loadable.sorted] at found
    obtain ⟨_, -, rfl⟩ := Option.map_eq_some_iff.mp found
    rfl
  · rename_i current
    have stamped := stamped_of_current rfl (by simp [NodeDB.getLatestVersion]) current
    refine ⟨rfl, rfl, rfl, rfl, rfl, rfl, rfl, ?_, .inl ⟨rfl, stamped⟩⟩
    simp [NodeDB.live]

namespace SharedTree

theorem coherent_start (loadable : disk.Loadable) (historic : disk.Historic) :
    (start disk).Coherent := by
  have steady := steady_load loadable
  have loaded := loaded_load loadable
  have versions : (load disk).ndb.disk.versions = disk.versions := by
    rw [Disk.versions, Disk.versions, loaded.roots]
  have latest : (load disk).ndb.disk.latestVersion = disk.latestVersion := by
    rw [Disk.latestVersion, Disk.latestVersion, loaded.roots]
  have reached : ∀ p ∈ disk.versions, p.1 ≤ disk.latestVersion := fun p inside =>
    (disk.latestVersion_le_iff _).mp le_rfl p.1
      (AList.lookup_isSome.mp (Option.isSome_iff_exists.mpr ⟨_, (disk.mem_versions p.1 p.2).mp inside⟩))
  have mirrors : Mirrors (load disk).ndb.live disk.latestRoot := by
    obtain ⟨_, flow, -⟩ := steady
    have mirrors := flow.mirrors
    rw [loaded.root] at mirrors
    refine mirrors.congr ?_ rfl
    rw [live, loaded.unsaved, FastNodeChanges.get_new, silent_on]
  have truthful : Truthful (load disk).ndb.live disk.versions := by
    intro p inside present k node found old
    rcases loaded.index with ⟨same, stamped⟩ | rebuilt
    · rw [loaded.live, same] at found
      exact historic.truthful stamped p inside present k node found old
    rw [loaded.live] at found
    have stamp := rebuilt k node found
    have newest : p.1 = disk.latestVersion := by
      have := reached p inside
      omega
    rw [historic.newest inside present newest, mirrors k, loaded.live, found]
    rfl
  refine ⟨?_, loaded.running, by simp [start], fun busy => absurd rfl busy, ?_, ?_, ?_, ?_,
    historic.zero, by simp [start], truthful, ?_, ?_, ?_, ?_, by simp [start]⟩
  · rw [ahead_of_idle]
    · exact steady
    · rfl
  · intro k node added
    simp [start, loaded.unsaved, silent] at added
  · simp only [start, announced, NodeDB.getLatestMemoryVersion, loaded.latestMemory, if_pos, latest,
      loaded.version]
  · exact fun _ => ⟨loaded.idle, by simp [start]⟩
  · intro p inside
    refine ⟨?_, historic.sorted p inside⟩
    simp only [start, announced, loaded.version]
    exact reached p inside
  · intro _ p inside newest present
    simp only [start, announced, loaded.version] at newest
    rw [historic.newest inside present newest]
    exact mirrors
  · simp only [start, versions]
    exact loaded.live ▸ truthful
  · simp only [start, versions]
    exact fun p inside => inside
  · intro event busy
    simp [start, loaded.idle] at busy

variable {shared : SharedTree κ ν}

theorem Coherent.historic (coherent : shared.Coherent) : shared.tree.ndb.disk.Historic :=
  ⟨fun p inside => coherent.zero p (coherent.roots p inside),
    fun p inside => (coherent.saved p (coherent.roots p inside)).2, fun _ => coherent.disk⟩

theorem Coherent.reload (coherent : shared.Coherent)
    (kept : shared.tree.ndb.disk.latestRoot ≠ none ∨
      ∀ key, shared.tree.ndb.disk.fast.lookup key = none) : (start shared.tree.ndb.disk).Coherent :=
  coherent_start (coherent.flow.disk.loadable kept) coherent.historic

theorem Coherent.saveStep (cfg : Config κ) {shared shared' : SharedTree κ ν}
    (coherent : shared.Coherent) (done : shared.saveStep cfg = .ok shared') : shared'.Coherent := by
  unfold SharedTree.saveStep at done
  split at done
  · rename_i idle
    cases done
    exact coherent.merge cfg idle
  · rename_i version merged
    cases done
    exact coherent.announce merged
  · rename_i version announced
    split at done
    · cases sent : shared.tree.persist cfg version with
      | error halt =>
        rw [sent] at done
        simp [Except.map] at done
      | ok =>
        rw [sent] at done
        cases done
        exact coherent.persist cfg announced sent
    · cases done
      exact coherent.skipPersist announced
  · rename_i version persisted
    cases done
    exact coherent.finish persisted

theorem Coherent.step (cfg : Config κ) {shared shared' : SharedTree κ ν} {action : Action κ ν}
    (coherent : shared.Coherent) (undisturbed : shared.Undisturbed action)
    (done : shared.step cfg action = .ok shared') : shared'.Coherent := by
  cases action with
  | set key value =>
    simp only [SharedTree.step] at done
    split at done
    · rename_i idle
      cases edited : shared.tree.set key value with
      | error halt =>
        rw [edited] at done
        simp [Except.map] at done
      | ok =>
        rw [edited] at done
        cases done
        exact coherent.set idle edited
    · cases done
      exact coherent
  | remove key =>
    simp only [SharedTree.step] at done
    split at done
    · rename_i idle
      cases done
      exact coherent.remove idle key
    · cases done
      exact coherent
  | save => exact coherent.saveStep cfg done
  | commit =>
    cases done
    exact coherent.commitStep cfg
  | ask =>
    simp only [SharedTree.step] at done
    split at done
    · cases done
      exact coherent
    rename_i root found
    split at done
    · rename_i asked
      cases done
      exact coherent.ask found asked
    · cases done
      exact coherent
  | read =>
    cases done
    exact coherent.readStep cfg undisturbed
  | reload =>
    cases done
    exact coherent.reload undisturbed

/-- Every answer to a query is the one of its version: the value of the key, or the pairs in the
range, in the tree saved as that version. -/
def Isolated (shared : SharedTree κ ν) : Prop :=
  ∀ reading ∈ shared.readings, (reading.tree.version, reading.tree.root) ∈ shared.saved ∧
    (∀ key result, reading.query = .value key result →
      result = .ok (reading.tree.getWithIndex key).2) ∧
    ∀ start stop ascending result, reading.query = .pairs start stop ascending result →
      result = .ok (newIterator start stop ascending reading.tree.root)

theorem Coherent.isolated (coherent : shared.Coherent) : shared.Isolated := by
  intro reading inside
  obtain ⟨found, known⟩ := coherent.readings reading inside
  refine ⟨found, fun key result query => ?_, fun start stop ascending result query => ?_⟩
  all_goals
    rw [query] at known
    exact known

def saves : List (Action Nat Nat) := List.replicate 4 .save

def twoKeys : List (Action Nat Nat) := [.set 1 (some 10), .set 2 (some 20)] ++ saves

theorem historic_blank : blank.Historic :=
  ⟨fun _ inside => (nomatch inside), fun _ inside => (nomatch inside),
    fun _ _ inside => (nomatch inside)⟩

/-- Get looks up the fast node before the merge, Iterator starts after the
announcement. -/
def patient : List (Action Nat Nat) :=
  [.set 1 (some 10), .set 2 (some 20), .save, .save, .save, .save, .ask 1 (.get 1), .read 0,
    .remove 1, .save, .read 0, .save, .ask 1 (.iterator none none true), .read 1]

theorem undisturbed_patient : Guarded (step pairwise) Undisturbed (start blank) patient := by
  refine .cons_ok trivial rfl (.cons_ok trivial rfl (.cons_ok trivial rfl (.cons_ok trivial rfl
    (.cons_ok trivial rfl (.cons_ok trivial rfl (.cons_ok trivial rfl (.cons_ok ?_ rfl ?_)))))))
  · rintro _ ⟨⟩
    trivial
  refine .cons_ok trivial rfl (.cons_ok trivial rfl (.cons_ok ?_ rfl ?_))
  · rintro _ ⟨⟩
    trivial
  refine .cons_ok trivial rfl (.cons_ok trivial rfl (.cons_ok ?_ rfl trivial))
  · rintro _ ⟨⟩
    trivial

end SharedTree

end Exchain.Iavl
