import Exchain.Iavl.Orphans

namespace Exchain.Iavl.Node

open SortedPairs List

variable {κ ν : Type}

/-- The tree whose values carry the version of their leaf and whether it is saved. -/
def marked : Node κ ν → Node κ (ν × Nat × Bool)
  | .leaf key value version saved => .leaf key (value, version, saved) version saved
  | .inner key height size version saved left right =>
    .inner key height size version saved left.marked right.marked

variable (node : Node κ ν)

@[simp] theorem height_marked : node.marked.height = node.height := by
  cases node <;> rfl

@[simp] theorem size_marked : node.marked.size = node.size := by
  cases node <;> rfl

@[simp] theorem minKey_marked : node.marked.minKey = node.minKey := by
  induction node with
  | leaf => rfl
  | inner _ _ _ _ _ _ _ ihLeft => exact ihLeft

@[simp] theorem calcBalance_marked : node.marked.calcBalance = node.calcBalance := by
  cases node <;> simp [marked, calcBalance]

theorem marked_join (key : κ) (version : Nat) (left right : Node κ ν) :
    (join key version left right).marked = join key version left.marked right.marked := by
  simp [join, marked]

variable (version : Nat)

theorem rotateRight_marked (node : Node κ ν) : rotateRight version node.marked =
      ((rotateRight version node).1.marked, (rotateRight version node).2.marked) := by
  cases node with
  | leaf => rfl
  | inner _ _ _ _ _ left =>
    cases left with
    | leaf => rfl
    | inner =>
      simp [marked, rotateRight, marked_join]

theorem rotateLeft_marked (node : Node κ ν) : rotateLeft version node.marked =
      ((rotateLeft version node).1.marked, (rotateLeft version node).2.marked) := by
  cases node with
  | leaf => rfl
  | inner _ _ _ _ _ _ right =>
    cases right with
    | leaf => rfl
    | inner =>
      simp [marked, rotateLeft, marked_join]

theorem balance_marked (node : Node κ ν) (orphans : List (Node κ ν)) :
    balance version node.marked (orphans.map marked) =
      ((balance version node orphans).1.marked, (balance version node orphans).2.map marked) := by
  cases node with
  | leaf => rfl
  | inner key height size nodeVersion saved left right =>
    have whole : calcBalance (.inner key height size nodeVersion saved left.marked right.marked) =
        calcBalance (.inner key height size nodeVersion saved left right) := by
      simp [calcBalance]
    have right' := rotateRight_marked version (.inner key height size nodeVersion saved left right)
    have left' := rotateLeft_marked version (.inner key height size nodeVersion saved left right)
    have inner := rotateLeft_marked version left
    have outer := rotateRight_marked version right
    have second := rotateRight_marked version
      (.inner key height size nodeVersion saved (rotateLeft version left).1 right)
    have second' := rotateLeft_marked version
      (.inner key height size nodeVersion saved left (rotateRight version right).1)
    simp only [marked] at right' left' second second'
    simp only [marked, balance, whole, calcBalance_marked, right', left', inner, outer, second,
      second']
    split
    · split <;> simp
    split
    · split <;> simp
    · rfl

/-- The keys with value, version and whether the leaf is saved. -/
def entries (node : Node κ ν) : List (κ × ν × Nat × Bool) := node.marked.contents

theorem contents_eq_entries :
    node.contents = node.entries.map (fun entry => (entry.1, entry.2.1)) := by
  induction node with
  | leaf => rfl
  | inner _ _ _ _ _ _ _ ihLeft ihRight =>
    rw [contents, ihLeft, ihRight, ← map_append]
    rfl

theorem mem_entries (key : κ) (value : ν) (version : Nat) (saved : Bool) :
    (key, value, version, saved) ∈ node.entries ↔ .leaf key value version saved ∈ node.subnodes := by
  induction node with
  | leaf => simp [entries, marked, contents, subnodes]
  | inner nodeKey height size nodeVersion nodeSaved left right ihLeft ihRight =>
    have split : entries (.inner nodeKey height size nodeVersion nodeSaved left right) =
        left.entries ++ right.entries := rfl
    simp [split, subnodes, ihLeft, ihRight]

variable [LinearOrder κ]

theorem recursiveSet_marked (key : κ) (value : ν) (node : Node κ ν) (orphans : List (Node κ ν)) :
    recursiveSet version key (value, version, false) node.marked (orphans.map marked) =
      ((recursiveSet version key value node orphans).1.marked,
        (recursiveSet version key value node orphans).2.1,
        (recursiveSet version key value node orphans).2.2.map marked) := by
  induction node generalizing orphans with
  | leaf =>
    simp only [marked, recursiveSet]
    split
    · rfl
    split
    · rfl
    · simp [marked, new]
  | inner nodeKey height size nodeVersion saved left right ihLeft ihRight =>
    have afterLeft := ihLeft (orphans ++ [.inner nodeKey height size nodeVersion saved left right])
    have afterRight := ihRight (orphans ++ [.inner nodeKey height size nodeVersion saved left right])
    simp only [map_append, map_cons, map_nil, marked] at afterLeft afterRight
    rw [marked, recursiveSet, recursiveSet]
    dsimp only
    split
    · rw [afterLeft]
      dsimp only
      split
      · rfl
      · rw [← marked_join, balance_marked]
    · rw [afterRight]
      dsimp only
      split
      · rfl
      · rw [← marked_join, balance_marked]

theorem recursiveRemove_marked (version : Nat) (key : κ) (node : Node κ ν)
    (orphans : List (Node κ ν)) : let removal := recursiveRemove version key node orphans
    let marked := recursiveRemove version key node.marked (orphans.map Node.marked)
    marked.newSelf = removal.newSelf.map Node.marked ∧ marked.newKey = removal.newKey ∧
      marked.orphans = removal.orphans.map Node.marked := by
  induction node with
  | leaf =>
    simp only [Node.marked, recursiveRemove]
    split
    · simp [Node.marked]
    · exact ⟨rfl, rfl, rfl⟩
  | inner nodeKey height size nodeVersion saved left right ihLeft ihRight =>
    simp only [Node.marked, recursiveRemove]
    dsimp only at ihLeft ihRight
    split
    · obtain ⟨newSelf, newKey, orphaned⟩ := ihLeft
      rw [orphaned, isEmpty_map]
      split
      · exact ⟨rfl, rfl, rfl⟩
      rw [newSelf]
      cases (recursiveRemove version key left orphans).newSelf with
      | none => simp [Node.marked]
      | some newLeft =>
        have balanced := balance_marked version (join nodeKey version newLeft right)
          ((recursiveRemove version key left orphans).orphans ++
            [.inner nodeKey height size nodeVersion saved left right])
        rw [marked_join, map_append, map_cons, map_nil, Node.marked] at balanced
        simp only [Option.map_some, balanced, newKey, and_self]
    · obtain ⟨newSelf, newKey, orphaned⟩ := ihRight
      rw [orphaned, isEmpty_map]
      split
      · exact ⟨rfl, rfl, rfl⟩
      rw [newSelf]
      cases (recursiveRemove version key right orphans).newSelf with
      | none => simp [Node.marked]
      | some newRight =>
        have balanced := balance_marked version
          (join ((recursiveRemove version key right orphans).newKey.getD nodeKey) version left
            newRight)
          ((recursiveRemove version key right orphans).orphans ++
            [.inner nodeKey height size nodeVersion saved left right])
        rw [marked_join, map_append, map_cons, map_nil, Node.marked] at balanced
        simp only [Option.map_some, newKey, balanced, and_self]

theorem Sorted.marked {node : Node κ ν} (sorted : node.Sorted) : node.marked.Sorted := by
  constructor
  · have ordered := sorted.ordered
    rw [contents_eq_entries, Ordered, pairwise_map] at ordered
    exact ordered
  have keyed := sorted.keyed
  clear sorted
  induction node with
  | leaf => trivial
  | inner _ _ _ _ _ _ _ ihLeft ihRight =>
    refine ⟨?_, ihLeft keyed.2.1, ihRight keyed.2.2⟩
    rw [minKey_marked]
    exact keyed.1

theorem Sorted.ordered_entries {node : Node κ ν} (sorted : node.Sorted) :
    Ordered (· < ·) node.entries := sorted.marked.ordered

theorem entries_recursiveSet (key : κ) (value : ν) {node : Node κ ν}
    (orphans : List (Node κ ν)) (sorted : node.Sorted) :
    (recursiveSet version key value node orphans).1.entries =
      put key (value, version, false) node.entries := by
  have same := recursiveSet_marked version key value node orphans
  have updated := updated_recursiveSet version key (value, version, false) node.marked
    (orphans.map marked) sorted.marked
  rw [same] at updated
  exact updated.contents

def rootEntries : Option (Node κ ν) → List (κ × ν × Nat × Bool)
  | none => []
  | some node => node.entries

theorem entries_recursiveRemove (key : κ) {node : Node κ ν} (sorted : node.Sorted) :
    rootEntries (recursiveRemove version key node []).newSelf = cut key node.entries := by
  obtain ⟨newSelf, -, -⟩ := recursiveRemove_marked version key node []
  have spec := recursiveRemove_spec version key node.marked sorted.marked
  rw [← map_nil (f := marked)] at spec
  rcases spec with removed | missed
  · cases self : (recursiveRemove version key node []).newSelf with
    | none =>
      rw [self] at newSelf
      exact (removed.nothing newSelf).symm
    | some node' =>
      rw [self] at newSelf
      exact removed.contents node'.marked newSelf
  · rw [missed.eq] at newSelf
    obtain ⟨_, self, same⟩ := Option.map_eq_some_iff.mp newSelf.symm
    rw [self]
    exact (congrArg contents same).trans (cut_eq_self missed.absent).symm

end Exchain.Iavl.Node
