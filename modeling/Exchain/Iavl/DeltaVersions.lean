import Exchain.Iavl.CommitFlow
import Exchain.Iavl.DeltaReproduce
import Exchain.Lib.PartialRun

namespace Exchain.Iavl

open SortedPairs Node

variable {κ ν : Type} [LinearOrder κ]

variable [DecidableEq ν]

namespace Follower

/-- A follower has what the producer has if and only if the version's delta says all. -/
theorem reproduced_iff_reproducible (pers : Persistence κ ν) {tree : MutableTree κ ν}
    (checkpoint : Checkpoint tree) (committed : List (Nat × Node κ ν))
    {nodes : Node κ ν → Option (NodeJson κ ν)}
    (holding : ∀ n ∈ rootSubnodes tree.root, nodes n = some (nodeToNodeJson n))
    (edits : List (Edit κ ν)) (fuel : Nat)
    (enough : ∀ node, (edits.foldl (Producer.edit pers) (.start tree committed)).tree.root =
      some node → node.nodeSize ≤ fuel) :
    let producer := edits.foldl (Producer.edit pers) (.start tree committed)
    (∃ follower, ((start tree nodes committed).setDelta producer.saveVersion).saveVersion fuel =
        some follower ∧ Reproduced producer follower) ↔ Reproducible pers tree producer := by
  have working := working_edits pers checkpoint committed edits
  generalize edits.foldl (Producer.edit pers) (.start tree committed) = producer at *
  intro made
  by_cases new : ∃ node, producer.tree.root = some node ∧ node.saved = false
  · obtain ⟨node, root, unsaved⟩ := new
    exact reproduced_iff_of_unsaved checkpoint working root unsaved holding (enough node root)
  by_cases same : producer.tree.root = tree.root
  · exact reproduced_iff_of_same_root checkpoint working same holding fuel
  refine iff_of_false ?_ fun reproducible => reproducible.root.elim new same
  rintro ⟨follower, done, reproduced⟩
  exact same (root_of_reproduced new done reproduced)

def pair : MutableTree Nat Nat :=
  ⟨some (.inner 2 1 2 1 true (.leaf 1 10 1 true) (.leaf 2 20 1 true)), 1, .new, .new ⟨∅, ∅, .plain⟩,
    [], none, false⟩

def emptied : MutableTree Nat Nat :=
  ⟨none, 2, FastNodeChanges.new.remove 1, .new ⟨∅, ∅, .plain⟩, [], none, false⟩

def pruned : Persistence Nat Nat := ⟨true, fun _ => true⟩

def unpruned : Persistence Nat Nat := ⟨false, fun _ => false⟩

def replay (pers : Persistence Nat Nat) (tree : MutableTree Nat Nat) (edits : List (Edit Nat Nat)) :
    Producer Nat Nat × Option (Follower Nat Nat) :=
  let producer := edits.foldl (Producer.edit pers) (.start tree [])
  (producer, ((start tree (fun n => some (nodeToNodeJson n)) []).setDelta
    producer.saveVersion).saveVersion 9)

/-- What a delta does not say: that a saved leaf became the root, that the tree was emptied, which
persisted nodes are orphans, that a key was set and removed, and that one whose removal was waiting
is set. -/
theorem delta_falls_short :
    ((replay unpruned pair [.remove 2]).2.map (fun f => f.root.map NodeJson.hash) =
        some (some (.inner 2 1 2 1 true (.leaf 1 10 1 true) (.leaf 2 20 1 true))) ∧
      (replay unpruned pair [.remove 2]).1.tree.root = some (.leaf 1 10 1 true)) ∧
    ((replay unpruned pair [.remove 1, .remove 2]).2.map (fun f => f.root.map NodeJson.hash) =
        some (some (.inner 2 1 2 1 true (.leaf 1 10 1 true) (.leaf 2 20 1 true))) ∧
      (replay unpruned pair [.remove 1, .remove 2]).1.tree.root = none) ∧
    ((replay pruned pair [.set 1 11]).2.map commitOrphans = some [] ∧
      (replay pruned pair [.set 1 11]).1.commitOrphans ≠ []) ∧
    ((replay unpruned pair [.set 3 30, .remove 3]).2.map (fun f => f.removals.keys) = some [] ∧
      (replay unpruned pair [.set 3 30, .remove 3]).1.tree.unsavedFastNodes.removals.keys = [3]) ∧
    ((replay unpruned emptied [.set 1 11]).2.map (fun f => f.removals.keys) = some [1] ∧
      (replay unpruned emptied [.set 1 11]).1.tree.unsavedFastNodes.removals.keys = []) := by
  decide

theorem checkpoint_pair : Checkpoint pair := by
  refine ⟨?_, by decide, by decide, ?_, fun _ _ => rfl, ?_⟩
  · rintro _ ⟨⟩
    exact ⟨by simp [contents, Ordered], rfl, trivial, trivial⟩
  · simp [pair, rootSubnodes, subnodes, Node.Tall]
  · simp [pair, Overlay.silent]

theorem reproduced_pair : ∃ follower,
    (replay unpruned pair [.set 3 30, .remove 2]).2 = some follower ∧
      Reproduced (replay unpruned pair [.set 3 30, .remove 2]).1 follower := by
  refine (reproduced_iff_reproducible unpruned checkpoint_pair [] (fun _ _ => rfl)
    [.set 3 30, .remove 2] 9 ?_).mpr ⟨.inl ⟨_, rfl, rfl⟩, fun _ _ => rfl, fun k removed => ?_,
      fun k waiting => absurd waiting (AList.notMem_empty k)⟩
  · rintro _ ⟨⟩
    decide
  · obtain rfl := List.mem_singleton.mp (show k ∈ [2] from AList.mem_keys.mp removed)
    exact .inr (by decide)

end Follower

end Exchain.Iavl
