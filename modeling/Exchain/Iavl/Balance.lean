import Mathlib.Data.Nat.Fib.Basic
import Exchain.Iavl.FastIndexRun

/-! The tree stays balanced: on their way up, Set and Remove leave siblings that differ by two levels
at most, and a rotation repairs that. -/

namespace Exchain.Iavl

variable {κ ν : Type}

namespace Node

section

variable (key : κ) (h s version : Nat) (saved : Bool) (left right : Node κ ν)

theorem height_inner : (inner key h s version saved left right).height = h := rfl

theorem height_leaf (value : ν) : (leaf key value version saved).height = 0 := rfl

theorem size_inner : (inner key h s version saved left right).size = s := rfl

end

/-- Recorded heights and sizes are right, and siblings differ by at most one level. -/
def Avl : Node κ ν → Prop
  | .leaf .. => True
  | .inner _ height size _ _ left right => (left.Avl ∧ right.Avl) ∧
    height = max left.height right.height + 1 ∧ size = left.size + right.size ∧
    left.height ≤ right.height + 1 ∧ right.height ≤ left.height + 1

/-- A balanced tree, at most one level higher or lower than the one before. -/
def Near (node : Node κ ν) (before : Nat) : Prop :=
  node.Avl ∧ node.height ≤ before + 1 ∧ before ≤ node.height + 1

variable {node left right : Node κ ν} (version : Nat) (key : κ) (orphans : List (Node κ ν))

theorem Avl.near (avl : node.Avl) : node.Near node.height := ⟨avl, Nat.le_succ _, Nat.le_succ _⟩

theorem near_balance {l r : Nat} (lower : left.Near l) (higher : right.Near r) (close : l ≤ r + 1)
    (close' : r ≤ l + 1) (apart : left.height ≤ right.height + 2)
    (apart' : right.height ≤ left.height + 2) :
    (balance version (join key version left right) orphans).1.Near (max l r + 1) := by
  unfold join
  simp only [balance]
  -- the higher side is no leaf, and neither is the grandchild that a double rotation lifts
  split
  · rcases left with _ | ⟨_, _, _, _, _, _, _ | _⟩ <;> split
    all_goals
      simp only [Near, Avl, height_inner, height_leaf, size_inner, calcBalance, rotateRight, rotateLeft, join] at *
      try simp only [lower, higher, true_and, and_true]
      omega
  split
  · rcases right with _ | ⟨_, _, _, _, _, _ | _, _⟩ <;> split
    all_goals
      simp only [Near, Avl, height_inner, height_leaf, size_inner, calcBalance, rotateRight, rotateLeft, join] at *
      try simp only [lower, higher, true_and, and_true]
      omega
  · simp only [Near, Avl, height_inner, calcBalance] at *
    simp only [lower, higher, true_and, and_true]
    omega

theorem avl_updateBranch (avl : node.Avl) : node.updateBranch.Avl ∧
    node.updateBranch.height = node.height ∧ node.updateBranch.size = node.size := by
  induction node with
  | leaf => exact ⟨trivial, rfl, rfl⟩
  | inner _ _ _ _ _ left right ihLeft ihRight =>
    rw [updateBranch]
    split
    · exact ⟨avl, rfl, rfl⟩
    obtain ⟨⟨lower, higher⟩, rest⟩ := avl
    obtain ⟨lower', height, size⟩ := ihLeft lower
    obtain ⟨higher', height', size'⟩ := ihRight higher
    refine ⟨⟨⟨lower', higher'⟩, ?_⟩, rfl, rfl⟩
    rw [height, size, height', size']
    exact rest

/-- A tree of some height has as many keys as the Fibonacci numbers say. -/
theorem fib_le_size (avl : node.Avl) :
    Nat.fib (node.height + 2) ≤ node.size ∧ node.size = node.contents.length := by
  induction node with
  | leaf => exact ⟨le_rfl, rfl⟩
  | inner _ _ _ _ _ left right ihLeft ihRight =>
    obtain ⟨⟨lower, higher⟩, rfl, rfl, close, close'⟩ := avl
    obtain ⟨few, size⟩ := ihLeft lower
    obtain ⟨few', size'⟩ := ihRight higher
    refine ⟨?_, by rw [size_inner, size, size', contents, List.length_append]⟩
    rw [height_inner, size_inner]
    rcases le_total left.height right.height with order | order
    · rw [max_eq_right order, Nat.fib_add_two]
      exact Nat.add_le_add ((Nat.fib_mono (by omega)).trans few) few'
    · rw [max_eq_left order, Nat.fib_add_two, Nat.add_comm]
      exact Nat.add_le_add few ((Nat.fib_mono (by omega)).trans few')

variable [LinearOrder κ]

/-- What Set leaves: a key that was there does not change the shape. -/
def Kept (node : Node κ ν) (result : Node κ ν × Bool × List (Node κ ν)) : Prop :=
  result.1.Near node.height ∧
    (result.2.1 = true → result.1.height = node.height ∧ result.1.size = node.size)

theorem kept_recursiveSet (value : ν) (avl : node.Avl) :
    node.Kept (recursiveSet version key value node orphans) := by
  induction node generalizing orphans with
  | leaf =>
    rw [recursiveSet]
    repeat' split
    all_goals simp [Kept, Near, Avl, height, new, size]
  | inner nodeKey height size nodeVersion saved left right ihLeft ihRight =>
    obtain ⟨⟨lower, higher⟩, rfl, rfl, close, close'⟩ := avl
    rw [recursiveSet]
    dsimp only
    generalize orphans ++ [_] = orphans
    split
    · obtain ⟨near, same⟩ := ihLeft orphans lower
      obtain ⟨-, _, _⟩ := id near
      split
      · rename_i updated
        have := same updated
        refine ⟨Avl.near ⟨⟨near.1, higher⟩, ?_, ?_, ?_, ?_⟩, fun _ => ⟨rfl, rfl⟩⟩ <;> omega
      · exact ⟨near_balance version nodeKey _ near higher.near close close' (by omega) (by omega), Bool.noConfusion⟩
    · obtain ⟨near, same⟩ := ihRight orphans higher
      obtain ⟨-, _, _⟩ := id near
      split
      · rename_i updated
        have := same updated
        refine ⟨Avl.near ⟨⟨lower, near.1⟩, ?_, ?_, ?_, ?_⟩, fun _ => ⟨rfl, rfl⟩⟩ <;> omega
      · exact ⟨near_balance version nodeKey _ lower.near near close close' (by omega) (by omega), Bool.noConfusion⟩

/-- What Remove leaves: nothing only of a leaf. -/
def Remains (node : Node κ ν) : Option (Node κ ν) → Prop
  | none => node.height = 0
  | some node' => node'.Near node.height

theorem remains_recursiveRemove (avl : node.Avl) :
    node.Remains (recursiveRemove version key node orphans).newSelf := by
  induction node generalizing orphans with
  | leaf =>
    rw [recursiveRemove]
    split
    · rfl
    · exact avl.near
  | inner nodeKey height size nodeVersion saved left right ihLeft ihRight =>
    have whole := avl.near
    obtain ⟨⟨lower, higher⟩, rfl, -, close, close'⟩ := avl
    rw [recursiveRemove]
    dsimp only
    split
    · have removed := ihLeft orphans lower
      split
      · exact whole
      split <;> rename_i self <;> rw [self] at removed <;> simp only [Remains, Near] at removed
      · refine ⟨higher, ?_, ?_⟩ <;> rw [height_inner] <;> omega
      · exact near_balance version nodeKey _ removed higher.near close close' (by omega) (by omega)
    · have removed := ihRight orphans higher
      split
      · exact whole
      split <;> rename_i self <;> rw [self] at removed <;> simp only [Remains, Near] at removed
      · refine ⟨lower, ?_, ?_⟩ <;> rw [height_inner] <;> omega
      · exact near_balance version _ _ lower.near removed close close' (by omega) (by omega)

end Node

namespace MutableTree

variable [LinearOrder κ] {tree tree' : MutableTree κ ν}

def Balanced (tree : MutableTree κ ν) : Prop := ∀ node, tree.root = some node → node.Avl

theorem Balanced.step (cfg : Config κ) {op : Op κ ν} (balanced : tree.Balanced)
    (running : op ≠ .reload) (done : tree.step cfg op = .ok tree') : tree'.Balanced := by
  have same (root : tree'.root = tree.root) : tree'.Balanced := fun node found =>
    balanced node (root ▸ found)
  cases op with
  | set key value =>
    cases value with
    | none => cases done
    | some value =>
      cases done
      rintro _ ⟨⟩
      split
      · trivial
      · exact (Node.kept_recursiveSet _ key [] value (balanced _ ‹_›)).1.1
  | remove key =>
    cases done
    unfold MutableTree.remove
    split
    · exact balanced
    rename_i node root
    have remains := Node.remains_recursiveRemove (tree.version + 1) key [] (balanced node root)
    dsimp only
    split
    · exact balanced
    · intro node' self
      exact ((congrArg node.Remains self).mp remains).1
  | get key =>
    apply same
    revert done
    simp only [MutableTree.step, MutableTree.get]
    repeat' split
    all_goals
      rintro ⟨⟩
      try rfl
  | iterate =>
    apply same
    revert done
    simp only [MutableTree.step, MutableTree.iterator]
    split
    · cases unsavedFastIteratorWithCache tree _ _ _ <;> rintro ⟨⟩
      rfl
    · cases tree.immutable.iterator _ _ _ _ <;> rintro ⟨⟩
      rfl
  | saveVersion =>
    have updated : tree.updateBranchFastNode.Balanced := by
      unfold updateBranchFastNode
      split
      · exact balanced
      · rintro _ ⟨⟩
        exact (Node.avl_updateBranch (balanced _ ‹_›)).1
    suffices tree'.root = tree.updateBranchFastNode.root from fun node found =>
      updated node (this ▸ found)
    revert done
    simp only [MutableTree.step, MutableTree.saveVersion, MutableTree.persist]
    repeat' split
    all_goals rintro ⟨⟩
    · exact (sameTree_awaitCommit cfg _).root
    · exact (sameTree_awaitCommit cfg _).root
    · rfl
  | commit =>
    cases done
    exact same (sameTree_commitStep cfg tree).root
  | stopTree =>
    apply same
    revert done
    simp only [MutableTree.step, MutableTree.stopTree]
    repeat' split
    all_goals rintro ⟨⟩
    exact (sameTree_awaitCommit cfg _).root.trans (sameTree_awaitCommit cfg _).root
  | reload => exact absurd rfl running

/-- Until a new process loads the tree, whatever is set, removed, read and saved, and however far
the commit goroutine is. -/
theorem balanced_of_run (cfg : Config κ) {ops : List (Op κ ν)} (running : .reload ∉ ops)
    (balanced : tree.Balanced) (done : PartialRun.run (step cfg) tree ops = .ok tree')
    {node : Node κ ν} (root : tree'.root = some node) :
    node.Avl ∧ Nat.fib (node.height + 2) ≤ node.contents.length := by
  have guarded : PartialRun.Guarded (step cfg) (fun _ op => op ≠ .reload) tree ops :=
    PartialRun.guarded_of_mem fun op inside _ => ne_of_mem_of_not_mem inside running
  have avl := guarded.keeps (fun _ _ _ balanced running => Balanced.step cfg balanced running)
    balanced done node root
  obtain ⟨few, size⟩ := Node.fib_le_size avl
  exact ⟨avl, size ▸ few⟩

theorem balanced_of_run_blank : ∃ ops tree node, PartialRun.run (step pairwise) (load blank) ops = .ok tree ∧
    tree.root = some node ∧ node.height = 2 ∧ Nat.fib (node.height + 2) ≤ node.contents.length := by
  have balanced : (load blank).Balanced := by rintro _ ⟨⟩
  have done : PartialRun.run (step pairwise) (load blank)
    ([0, 1, 2, 3, 4].map (fun key => .set key (some key)) ++ [.saveVersion, .remove 0]) = .ok _ := rfl
  exact ⟨_, _, _, done, rfl, rfl, (balanced_of_run pairwise (by decide) balanced done rfl).2⟩

end MutableTree

end Exchain.Iavl
