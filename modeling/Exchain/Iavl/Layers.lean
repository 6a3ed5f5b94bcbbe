import Exchain.Iavl.MutableTree

namespace Exchain.Iavl

open Overlay SortedPairs

variable {κ ν : Type} [LinearOrder κ]

/-- The index holds what the tree holds. -/
def Mirrors (index : κ → Option (FastNode ν)) (root : Option (Node κ ν)) : Prop :=
  ∀ k, (rootContents root).lookup k = (index k).map FastNode.value

theorem Mirrors.congr {index index' : κ → Option (FastNode ν)} {root root' : Option (Node κ ν)}
    (mirrors : Mirrors index root) (same : index' = index)
    (contents : rootContents root' = rootContents root) : Mirrors index' root' := by
  intro k
  rw [contents, same]
  exact mirrors k

/-- The index of the saved tree: the changes in memory over the disk. -/
def NodeDB.live (ndb : NodeDB κ ν) : κ → Option (FastNode ν) :=
  on ndb.prePersistFastNode.get (on ndb.tpfv.said ndb.disk.fast.lookup)

/-- The index of the working tree. -/
def MutableTree.live (tree : MutableTree κ ν) : κ → Option (FastNode ν) :=
  on tree.unsavedFastNodes.get tree.ndb.live

/-- The cache answers like the disk for the keys that no change in memory speaks
about. -/
structure NodeDB.Readable (ndb : NodeDB κ ν) : Prop where
  whole : ndb.tpfv.Whole
  cached : ∀ p ∈ ndb.fastNodeCache, ndb.tpfv.said p.1 = none → ndb.disk.fast.lookup p.1 = some p.2

/-- Two node databases that differ at most in the cache and the newest version looked up. -/
structure NodeDB.SameLayers (ndb ndb' : NodeDB κ ν) : Prop where
  disk : ndb'.disk = ndb.disk
  storageVersion : ndb'.storageVersion = ndb.storageVersion
  tpfv : ndb'.tpfv = ndb.tpfv
  prePersist : ndb'.prePersistFastNode = ndb.prePersistFastNode
  latest : ndb'.getLatestMemoryVersion.1 = ndb.getLatestMemoryVersion.1
  lookedUp : ndb'.latestMemoryVersion = 0 → ndb.latestMemoryVersion = 0
  cached : ∀ p ∈ ndb'.fastNodeCache, p ∈ ndb.fastNodeCache ∨
    (ndb.tpfv.said p.1 = none ∧ ndb.disk.fast.lookup p.1 = some p.2)

theorem NodeDB.SameLayers.refl (ndb : NodeDB κ ν) : ndb.SameLayers ndb :=
  ⟨rfl, rfl, rfl, rfl, rfl, id, fun _ => .inl⟩

theorem NodeDB.SameLayers.trans {a b c : NodeDB κ ν} (first : a.SameLayers b)
    (second : b.SameLayers c) : a.SameLayers c := by
  refine ⟨second.disk.trans first.disk, second.storageVersion.trans first.storageVersion,
    second.tpfv.trans first.tpfv, second.prePersist.trans first.prePersist,
    second.latest.trans first.latest, first.lookedUp ∘ second.lookedUp, fun p inside => ?_⟩
  rcases second.cached p inside with listed | both
  · exact first.cached p listed
  · exact .inr (first.tpfv ▸ first.disk ▸ both)

theorem NodeDB.SameLayers.live {ndb ndb' : NodeDB κ ν} (same : ndb.SameLayers ndb') :
    ndb'.live = ndb.live := by
  rw [NodeDB.live, NodeDB.live, same.prePersist, same.tpfv, same.disk]

theorem NodeDB.getLatestMemoryVersion_again (ndb : NodeDB κ ν) :
    ndb.getLatestMemoryVersion.2.getLatestMemoryVersion = ndb.getLatestMemoryVersion := by
  by_cases zero : ndb.latestMemoryVersion = 0 <;> simp [getLatestMemoryVersion, zero]

theorem NodeDB.sameLayers_getLatestMemoryVersion (ndb : NodeDB κ ν) :
    ndb.SameLayers ndb.getLatestMemoryVersion.2 := by
  refine ⟨rfl, rfl, rfl, rfl, congrArg Prod.fst ndb.getLatestMemoryVersion_again, ?_,
    fun _ => .inl⟩
  intro zero
  by_contra nonzero
  simp [getLatestMemoryVersion, nonzero] at zero

theorem NodeDB.getFastNode_spec (cfg : Config κ) {ndb : NodeDB κ ν} (readable : ndb.Readable)
    (key : κ) : ∃ told ndb', ndb.getFastNode cfg key = .ok (told, ndb') ∧
      (told = none ∨ told = some (ndb.live key)) ∧ ndb.SameLayers ndb' := by
  unfold getFastNode
  split
  · exact ⟨none, ndb, rfl, .inl rfl, .refl ndb⟩
  split
  · exact ⟨none, ndb, rfl, .inl rfl, .refl ndb⟩
  cases pre : ndb.prePersistFastNode.get key with
  | some said => exact ⟨some said, ndb, rfl, .inr (by simp [live, on, pre]), .refl ndb⟩
  | none =>
    rw [readable.whole.get_eq key]
    cases temp : ndb.tpfv.said key with
    | some said => exact ⟨some said, ndb, rfl, .inr (by simp [live, on, pre, temp]), .refl ndb⟩
    | none =>
      have lives : ndb.live key = ndb.disk.fast.lookup key := by simp [live, on, pre, temp]
      cases hit : ndb.fastNodeCache.get key with
      | some found =>
        obtain ⟨node, queue⟩ := found
        obtain ⟨listed, kept⟩ := FastNodeCache.mem_of_get hit
        have stored := readable.cached (key, node) listed temp
        refine ⟨some (some node), { ndb with fastNodeCache := queue }, rfl, .inr ?_, ?_⟩
        · rw [lives, stored]
        · exact ⟨rfl, rfl, rfl, rfl, rfl, id, fun p inside => .inl (kept p inside)⟩
      | none =>
        cases stored : ndb.disk.fast.lookup key with
        | none => exact ⟨some none, ndb, rfl, .inr (by rw [lives, stored]), .refl ndb⟩
        | some node =>
          refine ⟨some (some node), ndb.cacheFastNode cfg key node, rfl,
            .inr (by rw [lives, stored]), rfl, rfl, rfl, rfl, rfl, id, fun p inside => ?_⟩
          rcases FastNodeCache.mem_cache inside with rfl | ⟨listed, -⟩
          · exact .inr ⟨temp, stored⟩
          · exact .inl listed

theorem getWithIndex_eq {root : Option (Node κ ν)} (sorted : ∀ node, root = some node → node.Sorted)
    (version : Nat) (key : κ) :
    ((ImmutableTree.mk root version).getWithIndex key).2 = (rootContents root).lookup key := by
  cases root with
  | none => rfl
  | some node => exact Node.get_eq_lookup (sorted node rfl) key

namespace MutableTree

/-- The layers of a tree tell what the tree holds. -/
structure Mirrored (tree : MutableTree κ ν) : Prop where
  sorted : ∀ node, tree.root = some node → node.Sorted
  mirrors : Mirrors tree.live tree.root
  readable : tree.ndb.Readable

theorem Mirrored.get_eq (cfg : Config κ) {tree : MutableTree κ ν} (mirrored : tree.Mirrored)
    (key : κ) :
    ∃ ndb', tree.get cfg key = .ok ((tree.immutable.getWithIndex key).2, tree.setNdb ndb') ∧
      tree.ndb.SameLayers ndb' := by
  have walk : (tree.immutable.getWithIndex key).2 = (tree.live key).map FastNode.value :=
    (getWithIndex_eq mirrored.sorted tree.version key).trans (mirrored.mirrors key)
  unfold get
  cases root : tree.root with
  | none =>
    refine ⟨tree.ndb, ?_, .refl _⟩
    simp only [immutable, root]
    rfl
  | some node =>
    dsimp only
    split
    · exact ⟨tree.ndb, rfl, .refl _⟩
    cases unsaved : tree.unsavedFastNodes.get key with
    | some said =>
      refine ⟨tree.ndb, ?_, .refl _⟩
      rw [walk, live, on, unsaved]
      rfl
    | none =>
      have lives : tree.live key = tree.ndb.live key := by simp [live, on, unsaved]
      obtain ⟨_, ndb', done, answer, same⟩ := tree.ndb.getFastNode_spec cfg mirrored.readable key
      have rooted : tree.immutable.root = some node := root
      simp only [ImmutableTree.get, rooted, done]
      rcases answer with rfl | rfl
      · exact ⟨ndb', rfl, same⟩
      cases found : tree.ndb.live key with
      | none =>
        refine ⟨ndb'.getLatestMemoryVersion.2, ?_,
          same.trans ndb'.sameLayers_getLatestMemoryVersion⟩
        simp only [ImmutableTree.settleGet, walk, lives, found, Option.map_none, ite_self]
      | some fast =>
        refine ⟨ndb', ?_, same⟩
        simp only [ImmutableTree.settleGet, walk, lives, found, Option.map_some, ite_self]

theorem Mirrored.iterator_eq {tree : MutableTree κ ν} (mirrored : tree.Mirrored)
    (start stop : Option κ) (ascending : Bool) : ∃ ndb', tree.iterator start stop ascending =
        .ok (newIterator start stop ascending tree.root, tree.setNdb ndb') ∧
      tree.ndb.SameLayers ndb' := by
  have looked := tree.ndb.sameLayers_getLatestMemoryVersion
  have ordered := ordered_rootContents mirrored.sorted
  have fast : tree.unsavedFastIteratorWithCache start stop ascending =
      .ok (newIterator start stop ascending tree.root) := by
    obtain ⟨changes, expanded, said⟩ := mirrored.readable.whole.expand_eq
      (tree.unsavedFastNodes.mergePrev tree.ndb.prePersistFastNode)
    have live : on changes.get tree.ndb.disk.fast.lookup = tree.live := by
      rw [said, FastNodeChanges.get_mergePrev, atop_on, atop_on]
      rfl
    rw [unsavedFastIteratorWithCache, expanded, newIterator_eq mirrored.sorted]
    exact congrArg Except.ok
      (UnsavedFastIterator.items_eq start stop ascending _ changes ordered
        fun k => live ▸ mirrored.mirrors k)
  unfold iterator
  split
  · rename_i ndb' enabled
    have eq : ndb' = tree.ndb.getLatestMemoryVersion.2 := congrArg Prod.snd enabled.symm
    rw [fast]
    exact ⟨ndb', rfl, eq ▸ looked⟩
  rename_i ndb' disabled
  have eq : ndb' = tree.ndb.getLatestMemoryVersion.2 := congrArg Prod.snd disabled.symm
  -- the same test is made again, with the same outcome
  have again : tree.immutable.isFastCacheEnabled ndb' = (false, ndb') := by
    rw [← disabled, eq, ImmutableTree.isFastCacheEnabled, NodeDB.getLatestMemoryVersion_again]
    rfl
  rw [ImmutableTree.iterator, again]
  exact ⟨ndb', rfl, eq ▸ looked⟩

end MutableTree

end Exchain.Iavl
