import Exchain.Iavl.MutableTree

/-! State deltas: the nodes, orphans and fast nodes of one version, sent by the process that
executed the block to another. -/

namespace Exchain.Iavl

variable {κ ν : Type} [LinearOrder κ] [DecidableEq ν]

/-- A node as it is sent, with its children's hashes. Hashes do not collide: the hash of a node
stands for the node with all below it. -/
structure NodeJson (κ ν : Type) where
  key : κ
  value : Option ν
  hash : Node κ ν
  leftHash : Option (Node κ ν)
  rightHash : Option (Node κ ν)
  version : Nat
  size : Nat
  height : Nat
deriving Repr, DecidableEq

def NodeJson.isLeaf (node : NodeJson κ ν) : Bool := node.height = 0

def NodeJson.fastNode (node : NodeJson κ ν) : Option (FastNode ν) :=
  if node.isLeaf then node.value.map (fun value => ⟨node.version, value⟩) else none

def nodeToNodeJson (node : Node κ ν) : NodeJson κ ν := match node with
  | .leaf key value version _ => ⟨key, some value, node, none, none, version, 1, 0⟩
  | .inner key height size version _ left right =>
    ⟨key, none, node, some left, some right, version, size, height⟩

/-- The keys of savedNodes. -/
inductive NodeKey (κ ν : Type) where
  | root
  | hash (node : Node κ ν)
deriving Repr, DecidableEq

abbrev SavedNodes (κ ν : Type) [DecidableEq κ] [DecidableEq ν] :=
  AssocMap (NodeKey κ ν) (NodeJson κ ν)

structure TreeDelta (κ ν : Type) where
  nodesDelta : List (NodeKey κ ν × NodeJson κ ν)
  orphansDelta : List (NodeJson κ ν)
  commitOrphansDelta : List (Node κ ν × Nat)
deriving Repr, DecidableEq

def TreeDelta.empty : TreeDelta κ ν := ⟨[], [], []⟩

/-- EnablePruningHistoryState, and the nodes that are persisted while the version
is made. -/
structure Persistence (κ ν : Type) where
  pruning : Bool
  persisted : Node κ ν → Bool

/-- The tree with what its deltas are made of. -/
structure Producer (κ ν : Type) [DecidableEq κ] where
  tree : MutableTree κ ν
  orphans : List (Node κ ν)
  commitOrphans : List (Nat × Node κ ν)
  deltas : TreeDelta κ ν

inductive Edit (κ ν : Type) where
  | set (key : κ) (value : ν)
  | remove (key : κ)
deriving Repr, DecidableEq

namespace Producer

/-- addOrphansOptimized, for one node. -/
def addOrphan (pers : Persistence κ ν) (producer : Producer κ ν) (node : Node κ ν) : Producer κ ν :=
  if node.saved then
    let producer := { producer with orphans := producer.orphans ++ [node] }
    if pers.persisted node && pers.pruning then
      { producer with
        commitOrphans := producer.commitOrphans ++ [(node.version, node)]
        deltas := { producer.deltas with
          commitOrphansDelta := producer.deltas.commitOrphansDelta ++ [(node, node.version)] } }
    else producer
  else producer

def addOrphansOptimized (pers : Persistence κ ν) (producer : Producer κ ν)
    (orphans : List (Node κ ν)) : Producer κ ν :=
  orphans.foldl (addOrphan pers) producer

def setOrphans (tree : MutableTree κ ν) (key : κ) (value : ν) : List (Node κ ν) :=
  match tree.root with
  | none => []
  | some node => (node.recursiveSet (tree.version + 1) key value []).2.2

def removeOrphans (tree : MutableTree κ ν) (key : κ) : List (Node κ ν) := match tree.root with
  | none => []
  | some node => (node.recursiveRemove (tree.version + 1) key []).orphans

def edit (pers : Persistence κ ν) (producer : Producer κ ν) : Edit κ ν → Producer κ ν
  | .set key value =>
    match producer.tree.set key (some value) with
    | .error _ => producer
    | .ok tree =>
      addOrphansOptimized pers { producer with tree := tree } (setOrphans producer.tree key value)
  | .remove key =>
    addOrphansOptimized pers { producer with tree := producer.tree.remove key }
      (removeOrphans producer.tree key)

end Producer

/-- updateBranchConcurrency: the nodes without a hash get one and are put into savedNodes, in any
order of the goroutines. -/
def Node.updateBranchConcurrency : Node κ ν → SavedNodes κ ν → SavedNodes κ ν
  | .leaf key value version saved, savedNodes =>
    if saved then savedNodes
    else
      let node := .leaf key value version true
      savedNodes.insert (.hash node) (nodeToNodeJson node)
  | .inner key height size version saved left right, savedNodes =>
    if saved then savedNodes
    else
      let savedNodes := left.updateBranchConcurrency savedNodes
      let savedNodes := right.updateBranchConcurrency savedNodes
      let node := .inner key height size version true left.updateBranch right.updateBranch
      savedNodes.insert (.hash node) (nodeToNodeJson node)

/-- The delta that SaveVersion returns with produceDelta on. It starts with a new TreeDelta, which
an empty tree does not fill. -/
def Producer.saveVersion (producer : Producer κ ν) : TreeDelta κ ν :=
  let deltas : TreeDelta κ ν := .empty
  match producer.tree.root with
  | none => deltas
  | some node =>
    let savedNodes := node.updateBranchConcurrency ∅
    let root := node.updateBranch
    let savedNodes := if savedNodes.entries.isEmpty then savedNodes
      else (savedNodes.erase (.hash root)).insert .root (nodeToNodeJson root)
    { deltas with
      nodesDelta := savedNodes.pairs
      orphansDelta := producer.orphans.map nodeToNodeJson }

/-- The tree that follows by deltas. GetNode finds a node by its hash. -/
structure Follower (κ ν : Type) [DecidableEq κ] [DecidableEq ν] where
  root : Option (NodeJson κ ν)
  nodes : Node κ ν → Option (NodeJson κ ν)
  savedNodes : SavedNodes κ ν
  orphans : List (NodeJson κ ν)
  commitOrphans : List (Nat × Node κ ν)
  additions : AssocMap κ (FastNode ν)
  removals : AssocMap κ Unit

namespace Follower

/-- addAdditions for a new leaf; it leaves the removals alone. -/
def addAddition (additions : AssocMap κ (FastNode ν)) (node : NodeJson κ ν) :
    AssocMap κ (FastNode ν) :=
  match node.fastNode with
  | some fast => additions.insert node.key fast
  | none => additions

def addRemoval (additions : AssocMap κ (FastNode ν)) (removals : AssocMap κ Unit)
    (node : NodeJson κ ν) : AssocMap κ Unit :=
  if node.isLeaf && !decide (node.key ∈ additions) then removals.insert node.key () else removals

def setDelta (delta : TreeDelta κ ν) (follower : Follower κ ν) : Follower κ ν :=
  let savedNodes := delta.nodesDelta.foldl
    (fun savedNodes entry => savedNodes.insert entry.1 entry.2) follower.savedNodes
  let additions := (savedNodes.pairs.map Prod.snd).foldl addAddition follower.additions
  { follower with
    savedNodes := savedNodes
    orphans := delta.orphansDelta
    commitOrphans := follower.commitOrphans ++
      delta.commitOrphansDelta.map (fun entry => (entry.2, entry.1))
    additions := additions
    removals := delta.orphansDelta.foldl (addRemoval additions) follower.removals }

def hasNewNode (follower : Follower κ ν) : Bool := !follower.savedNodes.entries.isEmpty

/-- A child that is among the saved nodes is updated. -/
def updateChild (update : Follower κ ν → NodeJson κ ν → Option (Node κ ν × Follower κ ν))
    (follower : Follower κ ν) (child : Option (Node κ ν)) :
    Option (Option (Node κ ν) × Follower κ ν) :=
  match child with
  | none => some (none, follower)
  | some hash =>
    match follower.savedNodes.lookup (.hash hash) with
    | none => some (some hash, follower)
    | some node => (update follower node).map (fun updated => (some updated.1, updated.2))

/-- saveNodeToPrePersistCache, and the entry in savedNodes. -/
def saveNode (follower : Follower κ ν) (node : NodeJson κ ν) : Follower κ ν :=
  { follower with
    nodes := fun hash => if hash = node.hash then some node else follower.nodes hash
    savedNodes := follower.savedNodes.insert (.hash node.hash) node }

/-- updateBranchWithDelta, as deep as the fuel allows: the hash of the node, and the tree in which
it and what is below can be read. -/
def updateBranchWithDelta : Nat → Follower κ ν → NodeJson κ ν → Option (Node κ ν × Follower κ ν)
  | 0, _, _ => none
  | fuel + 1, follower, node => do
    let (leftHash, follower) ← updateChild (updateBranchWithDelta fuel) follower node.leftHash
    let (rightHash, follower) ← updateChild (updateBranchWithDelta fuel) follower node.rightHash
    let node := { node with leftHash := leftHash, rightHash := rightHash }
    return (node.hash, follower.saveNode node)

/-- SaveVersion with useDeltas: the root is the one of the delta if there is any. A saved node is
not updated. -/
def saveVersion (fuel : Nat) (follower : Follower κ ν) : Option (Follower κ ν) :=
  if follower.hasNewNode then
    let follower := { follower with root := follower.savedNodes.lookup NodeKey.root }
    match follower.root with
    | none => some follower
    | some node => (updateBranchWithDelta fuel follower node).map Prod.snd
  else some follower

end Follower

/-- The walk from a node finds every node below it and yields the pairs. -/
inductive Walks (nodes : Node κ ν → Option (NodeJson κ ν)) : Node κ ν → List (κ × ν) → Prop where
  | leaf {hash : Node κ ν} {node : NodeJson κ ν} {value : ν} (found : nodes hash = some node)
      (isLeaf : node.isLeaf = true) (valued : node.value = some value) :
      Walks nodes hash [(node.key, value)]
  | inner {hash left right : Node κ ν} {node : NodeJson κ ν} {lower higher : List (κ × ν)}
      (found : nodes hash = some node) (isInner : node.isLeaf = false)
      (leftHash : node.leftHash = some left) (rightHash : node.rightHash = some right)
      (walkLeft : Walks nodes left lower) (walkRight : Walks nodes right higher) :
      Walks nodes hash (lower ++ higher)

end Exchain.Iavl
