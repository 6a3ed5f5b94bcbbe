import Exchain.Store.CacheKV

/-! The nodes of the tree and the operations on them. A child that the source reaches through its
hash is the child itself here. A node is saved once it has a hash: it is pre-persisted or was read
from the database. Heights and sizes do not come near the bounds of their types. -/

namespace Exchain.Iavl

inductive Node (κ ν : Type) where
  | leaf (key : κ) (value : ν) (version : Nat) (saved : Bool)
  | inner (key : κ) (height size version : Nat) (saved : Bool) (left right : Node κ ν)
deriving Repr, DecidableEq

namespace Node

variable {κ ν : Type}

def height : Node κ ν → Nat
  | .leaf .. => 0
  | .inner _ height .. => height

def size : Node κ ν → Nat
  | .leaf .. => 1
  | .inner _ _ size .. => size

def version : Node κ ν → Nat
  | .leaf _ _ version _ => version
  | .inner _ _ _ version .. => version

def saved : Node κ ν → Bool
  | .leaf _ _ _ saved => saved
  | .inner _ _ _ _ saved .. => saved

def new (key : κ) (value : ν) (version : Nat) : Node κ ν := .leaf key value version false

/-- A clone with the given children, after calcHeightAndSize. -/
def join (key : κ) (version : Nat) (left right : Node κ ν) : Node κ ν :=
  .inner key (max left.height right.height + 1) (left.size + right.size) version false left right

def calcBalance : Node κ ν → Int
  | .leaf .. => 0
  | .inner _ _ _ _ _ left right => (left.height : Int) - right.height

/-- The new node and the orphan. There is nothing to rotate at a leaf: clone
panics there, and balance never asks for it. -/
def rotateRight (version : Nat) : Node κ ν → Node κ ν × Node κ ν
  | .inner key _ _ _ _ (.inner leftKey leftHeight leftSize leftVersion leftSaved a b) right =>
    (join leftKey version a (join key version b right),
      .inner leftKey leftHeight leftSize leftVersion leftSaved a b)
  | node => (node, node)

def rotateLeft (version : Nat) : Node κ ν → Node κ ν × Node κ ν
  | .inner key _ _ _ _ left (.inner rightKey rightHeight rightSize rightVersion rightSaved a b) =>
    (join rightKey version (join key version left a) b,
      .inner rightKey rightHeight rightSize rightVersion rightSaved a b)
  | node => (node, node)

/-- The balanced node and the orphans with those of the rotations behind them. -/
def balance (version : Nat) (node : Node κ ν) (orphans : List (Node κ ν)) :
    Node κ ν × List (Node κ ν) :=
  match node with
  | .leaf .. => (node, orphans)
  | .inner key height size nodeVersion saved left right =>
    if 1 < node.calcBalance then
      if 0 ≤ left.calcBalance then
        let (newNode, orphaned) := rotateRight version node
        (newNode, orphans ++ [orphaned])
      else
        let (newLeft, leftOrphaned) := rotateLeft version left
        let (newNode, rightOrphaned) :=
          rotateRight version (.inner key height size nodeVersion saved newLeft right)
        (newNode, orphans ++ [left, leftOrphaned, rightOrphaned])
    else if node.calcBalance < -1 then
      if right.calcBalance ≤ 0 then
        let (newNode, orphaned) := rotateLeft version node
        (newNode, orphans ++ [orphaned])
      else
        let (newRight, rightOrphaned) := rotateRight version right
        let (newNode, leftOrphaned) :=
          rotateLeft version (.inner key height size nodeVersion saved left newRight)
        (newNode, orphans ++ [right, leftOrphaned, rightOrphaned])
    else (node, orphans)

/-- updateBranch: every node that has no hash yet gets one. -/
def updateBranch : Node κ ν → Node κ ν
  | .leaf key value version _ => .leaf key value version true
  | .inner key height size version saved left right =>
    if saved then .inner key height size version saved left right
    else .inner key height size version true left.updateBranch right.updateBranch

variable [LinearOrder κ]

/-- The index and the value of a key. -/
def get (key : κ) : Node κ ν → Int × Option ν
  | .leaf nodeKey value _ _ =>
    if nodeKey < key then (1, none)
    else if key < nodeKey then (0, none)
    else (0, some value)
  | .inner nodeKey _ size _ _ left right =>
    if key < nodeKey then left.get key
    else
      let (index, value) := right.get key
      (index + size - right.size, value)

/-- The new node, whether the key was there, and the orphans. -/
def recursiveSet (version : Nat) (key : κ) (value : ν) :
    Node κ ν → List (Node κ ν) → Node κ ν × Bool × List (Node κ ν)
  | .leaf nodeKey nodeValue nodeVersion saved, orphans =>
    if key < nodeKey then
      (.inner nodeKey 1 2 version false (new key value version)
        (.leaf nodeKey nodeValue nodeVersion saved), false, orphans)
    else if nodeKey < key then
      (.inner key 1 2 version false (.leaf nodeKey nodeValue nodeVersion saved)
        (new key value version), false, orphans)
    else
      (new key value version, true, orphans ++ [.leaf nodeKey nodeValue nodeVersion saved])
  | .inner nodeKey height size nodeVersion saved left right, orphans =>
    let orphans := orphans ++ [.inner nodeKey height size nodeVersion saved left right]
    if key < nodeKey then
      let (newLeft, updated, orphans) := recursiveSet version key value left orphans
      if updated then
        (.inner nodeKey height size version false newLeft right, true, orphans)
      else
        let (newNode, orphans) := balance version (join nodeKey version newLeft right) orphans
        (newNode, false, orphans)
    else
      let (newRight, updated, orphans) := recursiveSet version key value right orphans
      if updated then
        (.inner nodeKey height size version false left newRight, true, orphans)
      else
        let (newNode, orphans) := balance version (join nodeKey version left newRight) orphans
        (newNode, false, orphans)

/-- What recursiveRemove returns: the node that replaces the old one, the new leftmost key if
changed, the removed value, and the orphans. -/
structure Removal (κ ν : Type) where
  newSelf : Option (Node κ ν)
  newKey : Option κ
  value : Option ν
  orphans : List (Node κ ν)
deriving Repr, DecidableEq

def recursiveRemove (version : Nat) (key : κ) : Node κ ν → List (Node κ ν) → Removal κ ν
  | .leaf nodeKey value nodeVersion saved, orphans =>
    if key = nodeKey then
      ⟨none, none, some value, orphans ++ [.leaf nodeKey value nodeVersion saved]⟩
    else ⟨some (.leaf nodeKey value nodeVersion saved), none, none, orphans⟩
  | .inner nodeKey height size nodeVersion saved left right, orphans =>
    let node := .inner nodeKey height size nodeVersion saved left right
    if key < nodeKey then
      let removal := recursiveRemove version key left orphans
      -- an empty list of orphans tells that the key was not found
      if removal.orphans.isEmpty then ⟨some node, none, removal.value, removal.orphans⟩
      else
        match removal.newSelf with
        | none => ⟨some right, some nodeKey, removal.value, removal.orphans ++ [node]⟩
        | some newLeft =>
          let (newNode, orphans) :=
            balance version (join nodeKey version newLeft right) (removal.orphans ++ [node])
          ⟨some newNode, removal.newKey, removal.value, orphans⟩
    else
      let removal := recursiveRemove version key right orphans
      if removal.orphans.isEmpty then ⟨some node, none, removal.value, removal.orphans⟩
      else
        match removal.newSelf with
        | none => ⟨some left, none, removal.value, removal.orphans ++ [node]⟩
        | some newRight =>
          let (newNode, orphans) :=
            balance version (join (removal.newKey.getD nodeKey) version left newRight)
              (removal.orphans ++ [node])
          ⟨some newNode, none, removal.value, orphans⟩

end Node

/-! The iterator that walks the tree. -/

variable {κ ν : Type} [LinearOrder κ]

/-- The tests of a traversal at a key; the end is exclusive. -/
def afterStart (start : Option κ) (key : κ) : Bool := start.all (fun low => decide (low < key))

def startOrAfter (start : Option κ) (key : κ) : Bool := start.all (fun low => decide (low ≤ key))

def beforeEnd (stop : Option κ) (key : κ) : Bool := stop.all (fun high => decide (key < high))

/-- One call of next: the node it returns and the delayed nodes left, the one to expand next in
front. -/
def traversalNext (start stop : Option κ) (ascending : Bool) :
    List (Node κ ν) → Option (Node κ ν × List (Node κ ν))
  | [] => none
  | .leaf key value version saved :: delayed =>
    if startOrAfter start key && beforeEnd stop key then
      some (.leaf key value version saved, delayed)
    else traversalNext start stop ascending delayed
  | .inner key height size version saved left right :: delayed =>
    let lower := if afterStart start key then [left] else []
    let higher := if beforeEnd stop key then [right] else []
    some (.inner key height size version saved left right,
      (if ascending then lower ++ higher else higher ++ lower) ++ delayed)

/-- The pairs an iterator yields in so many calls of next: it passes over inner
nodes. -/
def iteratorRead (start stop : Option κ) (ascending : Bool) : Nat → List (Node κ ν) → List (κ × ν)
  | 0, _ => []
  | calls + 1, delayed =>
    match traversalNext start stop ascending delayed with
    | none => []
    | some (.leaf key value _ _, delayed) =>
      (key, value) :: iteratorRead start stop ascending calls delayed
    | some (.inner .., delayed) => iteratorRead start stop ascending calls delayed

def Node.nodeSize : Node κ ν → Nat
  | .leaf .. => 1
  | .inner _ _ _ _ _ left right => left.nodeSize + right.nodeSize + 1

/-- All pairs of NewIterator on a tree. -/
def newIterator (start stop : Option κ) (ascending : Bool) (root : Option (Node κ ν)) :
    List (κ × ν) :=
  match root with
  | none => []
  | some node => iteratorRead start stop ascending node.nodeSize [node]

end Exchain.Iavl
