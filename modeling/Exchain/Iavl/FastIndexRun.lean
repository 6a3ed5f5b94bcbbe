import Exchain.Iavl.FastIndex

namespace Exchain.Iavl

open Overlay SortedPairs PartialRun

variable {κ ν : Type} [LinearOrder κ]

/-- A disk from which a tree is loaded: an index said to belong to the newest version does. Any
other is written anew. -/
structure Disk.Loadable (disk : Disk κ ν) : Prop where
  sorted : ∀ node, disk.latestRoot = some node → node.Sorted
  mirrors : disk.storageVersion = .fast disk.latestVersion → Mirrors disk.fast.lookup disk.latestRoot

variable {disk : Disk κ ν}

theorem Disk.Sound.loadable (sound : disk.Sound)
    (kept : disk.latestRoot ≠ none ∨ ∀ key, disk.fast.lookup key = none) : disk.Loadable := by
  refine ⟨sound.sorted, fun _ => ?_⟩
  by_cases empty : disk.latestRoot = none
  · intro key
    have unlisted := kept.resolve_left (not_not.mpr empty) key
    simp [empty, rootContents, unlisted]
  · exact sound.mirrors empty

theorem lookup_foldl_insert (version : Nat) (pairs : List (κ × ν))
    (ordered : Ordered (· < ·) pairs) (fast : AssocMap κ (FastNode ν)) (k : κ) :
    (pairs.foldl (fun fast pair => fast.insert pair.1 ⟨version, pair.2⟩) fast).lookup k =
      ((pairs.lookup k).map (FastNode.mk version)).or (fast.lookup k) := by
  induction pairs generalizing fast with
  | nil => rfl
  | cons pair rest ih =>
    obtain ⟨key, _⟩ := pair
    rw [List.foldl_cons, ih (List.Pairwise.of_cons ordered)]
    by_cases same : k = key
    · subst same
      have absent : rest.lookup k = none := lookup_eq_none_of fun p inside =>
        (List.rel_of_pairwise_cons ordered inside).ne'
      simp [absent]
    · have other : (k == key) = false := by simpa using same
      simp [List.lookup_cons, other, same]

namespace MutableTree

/-- The index that enableFastStorageAndCommit writes. -/
def rebuilt (version : Nat) (root : Option (Node κ ν)) : AssocMap κ (FastNode ν) :=
  (newIterator none none true root).foldl
    (fun fast pair => fast.insert pair.1 (FastNode.mk version pair.2)) ∅

section

variable (version : Nat) {root : Option (Node κ ν)}
  (sorted : ∀ node, root = some node → node.Sorted)

include sorted

theorem lookup_rebuilt (k : κ) :
    (rebuilt version root).lookup k = ((rootContents root).lookup k).map (FastNode.mk version) := by
  have all : newIterator none none true root = rootContents root := by
    rw [newIterator_eq sorted]
    simp [inRange, startOrAfter, beforeEnd]
  rw [rebuilt, all, lookup_foldl_insert version _ (ordered_rootContents sorted)]
  simp

theorem mirrors_rebuilt : Mirrors (rebuilt version root).lookup root := by
  intro k
  dsimp only
  rw [lookup_rebuilt version sorted]
  cases (rootContents root).lookup k <;> rfl

end

theorem steady_of_disk {tree : MutableTree κ ν} (quiet : tree.unsavedFastNodes = .new)
    (empty : tree.ndb.tpfv = .new ∧ tree.ndb.prePersistFastNode = .new)
    (cache : tree.ndb.fastNodeCache = []) (idle : tree.commitEvent = none)
    (version : tree.version = tree.ndb.disk.latestVersion)
    (root : tree.root = tree.ndb.disk.latestRoot)
    (committed : ∀ version ∈ tree.committedHeightQueue, version ≤ tree.version)
    (stamped : tree.ndb.disk.storageVersion = .fast tree.ndb.disk.latestVersion)
    (sorted : ∀ node, tree.root = some node → node.Sorted)
    (mirrors : Mirrors tree.ndb.disk.fast.lookup tree.root) : tree.Steady := by
  have whole : (FastNodeChangesWithVersion.new : FastNodeChangesWithVersion κ ν).Whole := by
    intro version inside
    simp [FastNodeChangesWithVersion.new] at inside
  refine ⟨[], ⟨sorted, ?_, empty.1 ▸ whole, ⟨stamped, root ▸ sorted, fun _ => root ▸ mirrors⟩,
    version.ge, committed, fun _ => ?_, fun _ => ⟨?_, ?_⟩, fun event busy => ?_⟩, ?_, fun _ => rfl⟩
  · refine mirrors.congr ?_ rfl
    rw [MutableTree.live, quiet, FastNodeChanges.get_new, NodeDB.live, empty.2,
      FastNodeChanges.get_new, silent_on, empty.1]
    rfl
  · rw [empty.2]
    exact FastNodeChanges.get_new
  · rw [empty.1]
    rfl
  · intro p inside
    simp [cache] at inside
  · simp [idle] at busy
  · intro event busy
    simp [idle] at busy

theorem stamped_of_current {ndb : NodeDB κ ν} (stored : ndb.storageVersion = disk.storageVersion)
    (latest : ndb.getLatestVersion.1 = disk.latestVersion)
    (current : ¬ (!ndb.hasUpgradedToFastStorage || ndb.shouldForceFastStorageUpgrade) = true) :
    disk.storageVersion = .fast disk.latestVersion := by
  revert current
  simp only [NodeDB.hasUpgradedToFastStorage, NodeDB.shouldForceFastStorageUpgrade, stored, latest]
  cases disk.storageVersion with
  | plain | fast => simp

theorem steady_load (loadable : disk.Loadable) : (load disk).Steady := by
  have committed : ∀ version ∈ disk.roots.keys.insertionSort (· ≤ ·), version ≤ disk.latestVersion := by
    intro version inside
    rw [List.mem_insertionSort] at inside
    exact (disk.latestVersion_le_iff _).mp le_rfl version inside
  unfold load enableFastStorage
  simp only [NodeDB.getLatestVersion, NodeDB.new, if_pos]
  split
  · exact steady_of_disk rfl ⟨rfl, rfl⟩ rfl rfl rfl rfl committed rfl loadable.sorted
      (mirrors_rebuilt _ loadable.sorted)
  rename_i current
  have stamped := stamped_of_current rfl (by simp [NodeDB.getLatestVersion]) current
  exact steady_of_disk rfl ⟨rfl, rfl⟩ rfl rfl rfl rfl committed stamped loadable.sorted
    (loadable.mirrors stamped)

theorem Steady.reload {tree : MutableTree κ ν} (steady : tree.Steady)
    (kept : tree.ndb.disk.latestRoot ≠ none ∨ ∀ key, tree.ndb.disk.fast.lookup key = none) :
    (load tree.ndb.disk).Steady := by
  obtain ⟨_, flow, -⟩ := steady
  exact steady_load (flow.disk.loadable kept)

theorem Steady.step (cfg : Config κ) {tree tree' : MutableTree κ ν} {op : Op κ ν}
    (steady : tree.Steady) (careful : tree.Careful op) (done : tree.step cfg op = .ok tree') :
    tree'.Steady := by
  cases op with
  | set => exact steady.set done
  | remove key =>
    cases done
    exact steady.remove key
  | get key => exact steady.get cfg done
  | iterate => exact steady.iterator done
  | saveVersion => exact steady.saveVersion cfg done
  | commit =>
    cases done
    exact steady.commitStep cfg
  | stopTree => exact steady.stopTree cfg careful.1 careful.2 done
  | reload =>
    cases done
    exact steady.reload careful

/-- In every run whose operations are careful, the reads give what the walk from
the root gives. -/
theorem faithful_of_careful (cfg : Config κ) {disk : Disk κ ν} (loadable : disk.Loadable)
    {ops : List (Op κ ν)} {tree : MutableTree κ ν}
    (careful : Guarded (step cfg) Careful (load disk) ops)
    (done : run (step cfg) (load disk) ops = .ok tree) : tree.Faithful cfg := by
  have steady : tree.Steady :=
    careful.keeps (fun _ _ _ steady guard first => steady.step cfg guard first)
      (steady_load loadable) done
  exact steady.faithful cfg

/-- Every second version is persisted at once; no key is empty. -/
def pairwise : Config Nat where
  commitGapHeight := 2
  finalCommitGapOffset := 0
  fastNodeCacheSize := 1
  historyStateNum := 3
  initialVersion := 0
  forceReadIavl := false
  keyIsEmpty := fun _ => false

def blank : Disk Nat Nat := ⟨∅, ∅, .plain⟩

theorem loadable_blank : blank.Loadable :=
  ⟨fun _ found => (nomatch found), fun stamped => absurd stamped (by decide)⟩

/-- The steps in which the goroutine commits a version with one change. -/
def commits : List (Op Nat Nat) := List.replicate 4 .commit

/-- Three runs after which the index differs from the tree: it is loaded from an empty version,
stops while its own version is being written, or loses a key and stops before it is saved. -/
theorem index_left_behind : (∃ tree, run (step pairwise) (load blank)
        ([.set 1 (some 10), .saveVersion, .saveVersion] ++ commits ++
          [.remove 1, .saveVersion, .saveVersion] ++ commits ++ [.reload]) = .ok tree ∧
      (tree.iterator none none true).map Prod.fst = .ok [(1, 10)] ∧
      newIterator none none true tree.root = []) ∧ (∃ tree, run (step pairwise) (load blank)
        [.set 1 (some 10), .saveVersion, .saveVersion, .stopTree] = .ok tree ∧
      (tree.get pairwise 1).map Prod.fst = .error .nilPointer ∧
      (tree.immutable.getWithIndex 1).2 = some 10) ∧ (∃ tree, run (step pairwise) (load blank)
        [.set 1 (some 10), .set 2 (some 20), .saveVersion, .remove 1, .stopTree, .reload] = .ok tree ∧
      (tree.get pairwise 1).map Prod.fst = .ok (some 10) ∧
      (tree.immutable.getWithIndex 1).2 = none) :=
  ⟨⟨_, rfl, rfl, rfl⟩, ⟨_, rfl, rfl, rfl⟩, ⟨_, rfl, rfl, rfl⟩⟩

def stoppedAndReloaded : List (Op Nat Nat) :=
  [.set 1 (some 10), .set 2 (some 20), .saveVersion, .remove 1, .saveVersion, .commit, .get 2,
    .saveVersion, .stopTree, .reload, .set 3 (some 30)]

theorem careful_stoppedAndReloaded :
    Guarded (step pairwise) Careful (load blank) stoppedAndReloaded := by
  refine .cons_ok trivial rfl (.cons_ok trivial rfl (.cons_ok trivial rfl (.cons_ok trivial rfl
    (.cons_ok trivial rfl (.cons_ok trivial rfl (.cons_ok trivial rfl (.cons_ok trivial rfl ?_)))))))
  refine .cons_ok ⟨?_, ?_⟩ rfl ?_
  · rintro _ ⟨⟩
    decide
  · exact .inr (.inr fun _ => rfl)
  refine .cons_ok (.inl ?_) rfl (.cons_ok trivial rfl trivial)
  exact Option.isSome_iff_ne_none.mp rfl

theorem faithful_stoppedAndReloaded : ∃ tree,
    run (step pairwise) (load blank) stoppedAndReloaded = .ok tree ∧ tree.Faithful pairwise :=
  ⟨_, rfl, faithful_of_careful pairwise loadable_blank careful_stoppedAndReloaded rfl⟩

end MutableTree

end Exchain.Iavl
