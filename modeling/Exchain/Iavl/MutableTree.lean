import Exchain.Iavl.NodeDB

/-! The tree that is written to, with asynchronous commit: the main goroutine saves versions in
memory and hands some to the commit goroutine. Fast storage is on; deltas, version upgrades and
pruning are not in use. -/

namespace Exchain.Iavl

open Overlay

variable {κ ν : Type} [LinearOrder κ]

/-- How far the commit goroutine is with an event: just received, fast nodes still to be put into
the batch, or the batch is on disk. -/
inductive Phase (κ ν : Type) where
  | received
  | writing (todo : List (κ × Option (FastNode ν)))
  | written

structure CommitEvent (κ ν : Type) [DecidableEq κ] where
  version : Nat
  root : Option (Node κ ν)
  fnc : FastNodeChanges κ ν
  phase : Phase κ ν

structure MutableTree (κ ν : Type) [DecidableEq κ] where
  root : Option (Node κ ν)
  version : Nat
  unsavedFastNodes : FastNodeChanges κ ν
  ndb : NodeDB κ ν
  committedHeightQueue : List Nat
  commitEvent : Option (CommitEvent κ ν)
  stopped : Bool

/-- saveFastNodeAdditions and saveFastNodeRemovals, as the list of what they write, each in key
order. -/
def FastNodeChanges.writes (changes : FastNodeChanges κ ν) : List (κ × Option (FastNode ν)) :=
  (changes.additions.entries.map (fun entry => (entry.1, some entry.2))).insertionSort
      (fun a b => a.1 ≤ b.1) ++
    (changes.removals.entries.map (fun entry => (entry.1, none))).insertionSort
      (fun a b => a.1 ≤ b.1)

def writeFast (fast : AssocMap κ (FastNode ν)) (write : κ × Option (FastNode ν)) :
    AssocMap κ (FastNode ν) :=
  match write.2 with
  | some node => fast.insert write.1 node
  | none => fast.erase write.1

def Disk.writeBatch (disk : Disk κ ν) (event : CommitEvent κ ν) : Disk κ ν where
  roots := disk.roots.insert event.version event.root
  fast := event.fnc.writes.foldl writeFast disk.fast
  storageVersion := .fast event.version

/-- What SaveFastNode and DeleteFastNode do besides adding to the batch. -/
def NodeDB.noteWrite (cfg : Config κ) (ndb : NodeDB κ ν) (write : κ × Option (FastNode ν)) :
    NodeDB κ ν :=
  match write.2 with
  | some node => ndb.cacheFastNode cfg write.1 node
  | none => ndb.uncacheFastNode write.1

namespace MutableTree

variable (cfg : Config κ) (tree : MutableTree κ ν)

def immutable : ImmutableTree κ ν := ⟨tree.root, tree.version⟩

def setNdb (ndb : NodeDB κ ν) : MutableTree κ ν := { tree with ndb := ndb }

def get (key : κ) : Except Halt (Option ν × MutableTree κ ν) :=
  match tree.root with
  | none => .ok (none, tree)
  | some _ =>
    if cfg.forceReadIavl then .ok ((tree.immutable.getWithIndex key).2, tree)
    else
      match tree.unsavedFastNodes.get key with
      | some said => .ok (said.map FastNode.value, tree)
      | none =>
        match tree.immutable.get cfg tree.ndb key with
        | .error halt => .error halt
        | .ok (value, ndb) => .ok (value, tree.setNdb ndb)

/-- All pairs of NewUnsavedFastIteratorWithCache. -/
def unsavedFastIteratorWithCache (start stop : Option κ)
    (ascending : Bool) : Except Halt (List (κ × ν)) :=
  match tree.ndb.tpfv.expand (tree.unsavedFastNodes.mergePrev tree.ndb.prePersistFastNode) with
  | .error halt => .error halt
  | .ok changes => .ok (UnsavedFastIterator.items start stop ascending tree.ndb.disk.fast changes)

/-- All pairs of Iterator. -/
def iterator (start stop : Option κ) (ascending : Bool) :
    Except Halt (List (κ × ν) × MutableTree κ ν) :=
  match tree.immutable.isFastCacheEnabled tree.ndb with
  | (true, ndb) =>
    (unsavedFastIteratorWithCache tree start stop ascending).map
      (fun pairs => (pairs, tree.setNdb ndb))
  | (false, ndb) =>
    (tree.immutable.iterator ndb start stop ascending).map
      (fun (pairs, ndb) => (pairs, tree.setNdb ndb))

/-- Set. A nil value is refused by a panic. -/
def set (key : κ) (value : Option ν) : Except Halt (MutableTree κ ν) :=
  match value with
  | none => .error .nilValue
  | some value =>
    .ok { tree with
      root := some (match tree.root with
        | none => .new key value (tree.version + 1)
        | some node => (node.recursiveSet (tree.version + 1) key value []).1)
      unsavedFastNodes := tree.unsavedFastNodes.add key ⟨tree.version + 1, value⟩ }

def remove (key : κ) : MutableTree κ ν := match tree.root with
  | none => tree
  | some node =>
    let removal := node.recursiveRemove (tree.version + 1) key []
    if removal.orphans.isEmpty then tree
    else
      { tree with
        root := removal.newSelf
        unsavedFastNodes := tree.unsavedFastNodes.remove key }

/-- updateCommittedStateHeightPool, without the pruning. -/
def pushCommitted (queue : List Nat) (version : Nat) : List Nat :=
  let longer := queue ++ [version]
  if cfg.historyStateNum < longer.length then longer.tail else longer

/-- One step of the commit goroutine: it skips a version it has committed, puts one fast node into
the batch, writes the batch, or takes the version's changes out of memory. -/
def commitStep : MutableTree κ ν :=
  match tree.commitEvent with
  | none => tree
  | some event =>
    match event.phase with
    | .received =>
      if event.version ∈ tree.committedHeightQueue then { tree with commitEvent := none }
      else
        { tree with
          committedHeightQueue := pushCommitted cfg tree.committedHeightQueue event.version
          ndb := { tree.ndb with storageVersion := .fast event.version }
          commitEvent := some { event with phase := .writing event.fnc.writes } }
    | .writing (write :: todo) =>
      { tree with
        ndb := tree.ndb.noteWrite cfg write
        commitEvent := some { event with phase := .writing todo } }
    | .writing [] =>
      { tree with
        ndb := { tree.ndb with disk := tree.ndb.disk.writeBatch event }
        commitEvent := some { event with phase := .written } }
    | .written =>
      { tree with
        ndb := { tree.ndb with tpfv := tree.ndb.tpfv.remove event.version }
        commitEvent := none }

def stepsLeft : Nat := match tree.commitEvent with
  | none => 0
  | some event =>
    match event.phase with
    | .received => event.fnc.writes.length + 3
    | .writing todo => todo.length + 2
    | .written => 1

/-- The main goroutine waits until the commit goroutine reads its channel again. -/
def awaitCommit : MutableTree κ ν :=
  (commitStep cfg)^[tree.stepsLeft] tree

def persist (version : Nat) : Except Halt (MutableTree κ ν) :=
  if tree.stopped then .error .blocked
  else
    let tree := tree.awaitCommit cfg
    let ndb := tree.ndb.updateLatestVersion version
    match tree.root with
    | none =>
      -- the changes stay where they are
      .ok { tree with ndb := ndb, commitEvent := some ⟨version, none, .new, .received⟩ }
    | some node =>
      if !node.saved then .error .emptyRootHash
      else
        let (fnc, ndb) := ndb.asyncPersistTppStart version
        .ok { tree with ndb := ndb, commitEvent := some ⟨version, some node, fnc, .received⟩ }

/-- The start of SaveVersionAsync: the new nodes get their hashes and the changes
move to the node database. An empty tree keeps them. -/
def updateBranchFastNode : MutableTree κ ν := match tree.root with
  | none => tree
  | some node =>
    { tree with
      root := some node.updateBranch
      ndb := tree.ndb.updateBranchForFastNode tree.unsavedFastNodes
      unsavedFastNodes := .new }

def shouldPersist (version : Nat) : Bool :=
  version % cfg.commitGapHeight = cfg.finalCommitGapOffset

/-- The version that SaveVersion saves, always a new one: the tree is loaded at its newest version.
-/
def nextVersion : Nat :=
  if tree.version + 1 = 1 ∧ 0 < cfg.initialVersion then cfg.initialVersion + 1 else tree.version + 1

/-- SaveVersion by way of SaveVersionAsync. -/
def saveVersion : Except Halt (MutableTree κ ν) :=
  let version := tree.nextVersion cfg
  let tree := tree.updateBranchFastNode
  let tree := { tree with ndb := tree.ndb.updateLatestMemoryVersion version }
  if shouldPersist cfg version then
    (tree.persist cfg version).map (fun tree => { tree with version := version })
  else .ok { tree with version := version }

/-- What StopTree does before it sends its event. -/
def handOver : MutableTree κ ν :=
  tree.setNdb ((tree.ndb.updateLatestVersion tree.version).asyncPersistTppStart tree.version).2

def lastEvent : CommitEvent κ ν where
  version := tree.version
  root := tree.root
  fnc := ((tree.ndb.updateLatestVersion tree.version).asyncPersistTppStart tree.version).1
  phase := .received

/-- StopTree. It waits until the commit goroutine is through with its event and the last one; then
the goroutine ends. -/
def stopTree : Except Halt (MutableTree κ ν) :=
  if tree.stopped then .error .blocked
  else if tree.root.any (fun node => !node.saved) then .error .emptyRootHash
  else
    let waiting := tree.handOver.awaitCommit cfg
    let last := ({ waiting with commitEvent := some tree.lastEvent } : MutableTree κ ν)
    .ok { last.awaitCommit cfg with stopped := true }

/-- enableFastStorageAndCommitIfNotEnabled: the index is written anew if it was
never written, or for another version. -/
def enableFastStorage : MutableTree κ ν :=
  let (latest, ndb) := tree.ndb.getLatestVersion
  if !ndb.hasUpgradedToFastStorage || ndb.shouldForceFastStorageUpgrade then
    let fast := (newIterator none none true tree.root).foldl
      (fun fast pair => fast.insert pair.1 ⟨tree.version, pair.2⟩) ∅
    { tree with
      ndb := { ndb with
        disk := { ndb.disk with fast := fast, storageVersion := .fast latest }
        storageVersion := .fast latest } }
  else { tree with ndb := ndb }

/-- NewMutableTree and Load: the tree of the newest root. -/
def load (disk : Disk κ ν) : MutableTree κ ν :=
  let version := disk.latestVersion
  enableFastStorage {
    root := if version = 0 then none else (disk.roots.lookup version).join
    version := version
    unsavedFastNodes := .new
    ndb := .new disk
    committedHeightQueue := disk.roots.keys.insertionSort (· ≤ ·)
    commitEvent := none
    stopped := false }

end MutableTree

end Exchain.Iavl
