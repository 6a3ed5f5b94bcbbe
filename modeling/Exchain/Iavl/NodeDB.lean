import Exchain.Iavl.FastIterator

/-! The node database as far as the fast index goes: the disk, the version stamps, the cache of fast
nodes and the changes not on disk yet. -/

namespace Exchain.Iavl

open Overlay List

/-- The settings. A key is empty when it has no bytes; keys are ordered as by bytes.Compare. -/
structure Config (κ : Type) where
  commitGapHeight : Nat
  finalCommitGapOffset : Nat
  fastNodeCacheSize : Nat
  historyStateNum : Nat
  initialVersion : Nat
  forceReadIavl : Bool
  keyIsEmpty : κ → Bool

/-- The storage version: plain, or fast with the version that the fast index belongs to. -/
inductive StorageVersion where
  | plain
  | fast (version : Nat)
deriving Repr, DecidableEq

/-- What the database holds. An empty tree has an empty root. -/
structure Disk (κ ν : Type) [DecidableEq κ] where
  roots : AssocMap Nat (Option (Node κ ν))
  fast : AssocMap κ (FastNode ν)
  storageVersion : StorageVersion

/-- The newest root; version zero does not count. -/
def Disk.latestVersion {κ ν : Type} [DecidableEq κ] (disk : Disk κ ν) : Nat :=
  disk.roots.keys.foldl max 0

/-- The queue of the cache, the least recently used node first. -/
abbrev FastNodeCache (κ ν : Type) := List (κ × FastNode ν)

namespace FastNodeCache

variable {κ ν : Type} [DecidableEq κ]

def uncache (queue : FastNodeCache κ ν) (key : κ) : FastNodeCache κ ν :=
  queue.filter (fun p => p.1 ≠ key)

def cache (size : Nat) (queue : FastNodeCache κ ν) (key : κ) (node : FastNode ν) :
    FastNodeCache κ ν :=
  if (queue.lookup key).isSome then queue.uncache key ++ [(key, node)]
  else
    let longer := queue ++ [(key, node)]
    longer.drop (longer.length - size)

/-- A node that is found moves to the back. -/
def get (queue : FastNodeCache κ ν) (key : κ) : Option (FastNode ν × FastNodeCache κ ν) :=
  (queue.lookup key).map (fun node => (node, queue.uncache key ++ [(key, node)]))

variable {queue : FastNodeCache κ ν}

theorem mem_cache {size : Nat} {key : κ} {node : FastNode ν}
    {p : κ × FastNode ν} (inside : p ∈ queue.cache size key node) :
    p = (key, node) ∨ (p ∈ queue ∧ p.1 ≠ key) := by
  unfold cache at inside
  split at inside
  · rcases mem_append.mp inside with inside | inside
    · have both := mem_filter.mp inside
      exact .inr ⟨both.1, by simpa using both.2⟩
    · exact .inl (by simpa using inside)
  rename_i absent
  have unlisted : queue.lookup key = none := Option.not_isSome_iff_eq_none.mp absent
  rw [lookup_eq_none_iff] at unlisted
  rcases mem_append.mp (mem_of_mem_drop inside) with listed | listed
  · refine .inr ⟨listed, ?_⟩
    rintro rfl
    simpa using unlisted p listed
  · exact .inl (by simpa using listed)

theorem mem_uncache {key : κ} {p : κ × FastNode ν} :
    p ∈ queue.uncache key ↔ p ∈ queue ∧ p.1 ≠ key := by
  simp [uncache]

theorem mem_of_get {queue' : FastNodeCache κ ν} {key : κ} {node : FastNode ν}
    (found : queue.get key = some (node, queue')) :
    (key, node) ∈ queue ∧ ∀ p ∈ queue', p ∈ queue := by
  obtain ⟨other, looked, eq⟩ := Option.map_eq_some_iff.mp found
  obtain ⟨rfl, rfl⟩ := Prod.mk.inj eq
  obtain ⟨_, _, split, -⟩ := lookup_eq_some_iff.mp looked
  have inside : (key, other) ∈ queue := by simp [split]
  refine ⟨inside, fun p listed => ?_⟩
  rcases mem_append.mp listed with listed | listed
  · exact (mem_uncache.mp listed).1
  · rw [mem_singleton.mp listed]
    exact inside

end FastNodeCache

structure NodeDB (κ ν : Type) [DecidableEq κ] where
  disk : Disk κ ν
  storageVersion : StorageVersion
  latestPersistedVersion : Nat
  latestMemoryVersion : Nat
  fastNodeCache : FastNodeCache κ ν
  tpfv : FastNodeChangesWithVersion κ ν
  prePersistFastNode : FastNodeChanges κ ν

namespace NodeDB

variable {κ ν : Type} [DecidableEq κ]

def new (disk : Disk κ ν) : NodeDB κ ν where
  disk := disk
  storageVersion := disk.storageVersion
  latestPersistedVersion := 0
  latestMemoryVersion := 0
  fastNodeCache := []
  tpfv := .new
  prePersistFastNode := .new

variable (cfg : Config κ) (ndb : NodeDB κ ν)

def hasUpgradedToFastStorage : Bool := match ndb.storageVersion with
  | .plain => false
  | .fast _ => true

/-- The newest root is looked up once. -/
def getLatestVersion : Nat × NodeDB κ ν :=
  let latest :=
    if ndb.latestPersistedVersion = 0 then ndb.disk.latestVersion else ndb.latestPersistedVersion
  (latest, { ndb with latestPersistedVersion := latest })

def updateLatestVersion (version : Nat) : NodeDB κ ν :=
  { ndb with latestPersistedVersion := max ndb.latestPersistedVersion version }

def getLatestMemoryVersion : Nat × NodeDB κ ν :=
  let latest :=
    if ndb.latestMemoryVersion = 0 then ndb.disk.latestVersion else ndb.latestMemoryVersion
  (latest, { ndb with latestMemoryVersion := latest })

def updateLatestMemoryVersion (version : Nat) : NodeDB κ ν :=
  { ndb with latestMemoryVersion := max ndb.latestMemoryVersion version }

/-- The index was written for another version than the newest root. -/
def shouldForceFastStorageUpgrade : Bool := match ndb.storageVersion with
  | .plain => false
  | .fast version => version ≠ ndb.getLatestVersion.1

def cacheFastNode (key : κ) (node : FastNode ν) : NodeDB κ ν :=
  { ndb with fastNodeCache := ndb.fastNodeCache.cache cfg.fastNodeCacheSize key node }

def uncacheFastNode (key : κ) : NodeDB κ ν :=
  { ndb with fastNodeCache := ndb.fastNodeCache.uncache key }

/-- The fast node of a key, or none inside when the index has none. No answer is the error on which
the caller walks the tree. -/
def getFastNode (key : κ) : Except Halt (Option (Option (FastNode ν)) × NodeDB κ ν) :=
  if !ndb.hasUpgradedToFastStorage then .ok (none, ndb)
  else if cfg.keyIsEmpty key then .ok (none, ndb)
  else
    match ndb.prePersistFastNode.get key with
    | some said => .ok (some said, ndb)
    | none =>
      match ndb.tpfv.get key with
      | .error halt => .error halt
      | .ok (some said) => .ok (some said, ndb)
      | .ok none =>
        match ndb.fastNodeCache.get key with
        | some (node, queue) => .ok (some (some node), { ndb with fastNodeCache := queue })
        | none =>
          match ndb.disk.fast.lookup key with
          | none => .ok (some none, ndb)
          | some node => .ok (some (some node), ndb.cacheFastNode cfg key node)

def updateBranchForFastNode (changes : FastNodeChanges κ ν) : NodeDB κ ν :=
  { ndb with prePersistFastNode := ndb.prePersistFastNode.mergeLater changes }

/-- The changes that are persisted from here on. -/
def asyncPersistTppStart (version : Nat) : FastNodeChanges κ ν × NodeDB κ ν :=
  (ndb.prePersistFastNode,
    { ndb with
      tpfv := ndb.tpfv.add version ndb.prePersistFastNode
      prePersistFastNode := .new })

end NodeDB

structure ImmutableTree (κ ν : Type) where
  root : Option (Node κ ν)
  version : Nat

namespace ImmutableTree

variable {κ ν : Type} [LinearOrder κ] (tree : ImmutableTree κ ν)

/-- GetWithIndex: the walk from the root. -/
def getWithIndex (key : κ) : Int × Option ν := match tree.root with
  | none => (0, none)
  | some node => node.get key

/-- What Get makes of the fast node it was told. -/
def settleGet (key : κ) (told : Option (Option (FastNode ν)))
    (ndb : NodeDB κ ν) : Option ν × NodeDB κ ν :=
  match told with
  | none => ((tree.getWithIndex key).2, ndb)
  | some none =>
    let (latest, ndb) := ndb.getLatestMemoryVersion
    (if tree.version = latest then none else (tree.getWithIndex key).2, ndb)
  | some (some node) =>
    (if node.versionLastUpdatedAt ≤ tree.version then some node.value
      else (tree.getWithIndex key).2, ndb)

def get (cfg : Config κ) (tree : ImmutableTree κ ν) (ndb : NodeDB κ ν) (key : κ) :
    Except Halt (Option ν × NodeDB κ ν) :=
  match tree.root with
  | none => .ok (none, ndb)
  | some _ =>
    match ndb.getFastNode cfg key with
    | .error halt => .error halt
    | .ok (told, ndb) => .ok (tree.settleGet key told ndb)

def isFastCacheEnabled (ndb : NodeDB κ ν) : Bool × NodeDB κ ν :=
  let (latest, ndb) := ndb.getLatestMemoryVersion
  (decide (tree.version = latest) && ndb.hasUpgradedToFastStorage, ndb)

/-- All pairs of NewFastIteratorWithCache. -/
def fastIteratorWithCache (start stop : Option κ) (ascending : Bool) (ndb : NodeDB κ ν) :
    Except Halt (List (κ × ν)) :=
  match ndb.tpfv.expand ndb.prePersistFastNode with
  | .error halt => .error halt
  | .ok changes => .ok (UnsavedFastIterator.items start stop ascending ndb.disk.fast changes)

/-- All pairs of Iterator. -/
def iterator (ndb : NodeDB κ ν) (start stop : Option κ)
    (ascending : Bool) : Except Halt (List (κ × ν) × NodeDB κ ν) :=
  match tree.isFastCacheEnabled ndb with
  | (true, ndb) => (fastIteratorWithCache start stop ascending ndb).map (fun pairs => (pairs, ndb))
  | (false, ndb) => .ok (newIterator start stop ascending tree.root, ndb)

end ImmutableTree

end Exchain.Iavl
