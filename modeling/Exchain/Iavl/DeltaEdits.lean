import Exchain.Iavl.Delta
import Exchain.Iavl.LeafEntries

namespace Exchain.Iavl

open SortedPairs Node FastNodeChanges Producer List

variable {κ ν : Type} [LinearOrder κ]

def rootSubnodes : Option (Node κ ν) → List (Node κ ν)
  | none => []
  | some node => node.subnodes

def rootTally (test : Node κ ν → Bool) (root : Option (Node κ ν)) : Nat := root.elim 0 (tally test)

def Node.Tall : Node κ ν → Prop
  | .leaf .. => True
  | .inner _ height .. => 0 < height

/-- A tree as SaveVersion leaves it. After an empty version the removals wait. -/
structure Checkpoint (tree : MutableTree κ ν) : Prop where
  sorted : ∀ node, tree.root = some node → node.Sorted
  saved : ∀ node ∈ rootSubnodes tree.root, node.saved = true
  older : ∀ node ∈ rootSubnodes tree.root, node.version ≤ tree.version
  tall : ∀ node ∈ rootSubnodes tree.root, node.Tall
  settled : tree.root ≠ none → ∀ k, tree.unsavedFastNodes.get k = none
  pending : ∀ k fast, tree.unsavedFastNodes.get k ≠ some (some fast)

variable {committed : List (Nat × Node κ ν)} {pers : Persistence κ ν} {producer : Producer κ ν}
  {tree : MutableTree κ ν}

theorem Checkpoint.base (checkpoint : Checkpoint tree) :
    Base (fun node => node ∈ rootSubnodes tree.root) := by
  have closed : ∀ {a b : Node κ ν}, a ∈ b.subnodes → b ∈ rootSubnodes tree.root →
      a ∈ rootSubnodes tree.root := by
    intro a b first second
    unfold rootSubnodes at second ⊢
    split at second
    · simp at second
    exact subnodes_trans first second
  refine ⟨fun inside => closed ?_ inside, fun inside => closed ?_ inside, fun inside => ?_⟩
  · simp [subnodes, mem_subnodes_self]
  · simp [subnodes, mem_subnodes_self]
  · exact checkpoint.tall _ inside

def Producer.start (tree : MutableTree κ ν) (committed : List (Nat × Node κ ν)) : Producer κ ν :=
  ⟨tree, [], committed, .empty⟩

/-- The orphans that are recorded for the commit. -/
def Persistence.commits (pers : Persistence κ ν) (orphans : List (Node κ ν)) :
    List (Nat × Node κ ν) :=
  (orphans.filter (fun node => pers.persisted node && pers.pruning)).map
    (fun node => (node.version, node))

theorem Producer.addOrphansOptimized_eq (pers : Persistence κ ν) (producer : Producer κ ν)
    (orphans : List (Node κ ν)) : (producer.addOrphansOptimized pers orphans).tree = producer.tree ∧
      (producer.addOrphansOptimized pers orphans).orphans =
        producer.orphans ++ orphans.filter Node.saved ∧
      (producer.addOrphansOptimized pers orphans).commitOrphans =
        producer.commitOrphans ++ pers.commits (orphans.filter Node.saved) := by
  unfold addOrphansOptimized
  induction orphans generalizing producer with
  | nil => simp [Persistence.commits]
  | cons node rest ih =>
    rw [foldl_cons]
    obtain ⟨tree, recorded, committed⟩ := ih (producer.addOrphan pers node)
    rw [tree, recorded, committed]
    unfold addOrphan
    by_cases saved : node.saved = true
    · by_cases kept : (pers.persisted node && pers.pruning) = true <;>
        simp [saved, kept, Persistence.commits]
    · simp [saved]

structure Working (pers : Persistence κ ν) (tree : MutableTree κ ν)
    (committed : List (Nat × Node κ ν)) (producer : Producer κ ν) : Prop where
  version : producer.tree.version = tree.version
  sorted : ∀ node, producer.tree.root = some node → node.Sorted
  built : ∀ node, producer.tree.root = some node →
    node.Built (tree.version + 1) (fun n => n ∈ rootSubnodes tree.root)
  added : ∀ k fast, producer.tree.unsavedFastNodes.get k = some (some fast) →
    (rootEntries producer.tree.root).lookup k = some (fast.value, fast.versionLastUpdatedAt, false)
  removed : ∀ k, producer.tree.unsavedFastNodes.get k = some none →
    (rootEntries producer.tree.root).lookup k = none
  same : ∀ k, producer.tree.unsavedFastNodes.get k = none →
    (rootEntries producer.tree.root).lookup k = (rootEntries tree.root).lookup k
  pending : ∀ k, tree.unsavedFastNodes.get k ≠ none → producer.tree.unsavedFastNodes.get k ≠ none
  conserved : ∀ test, CountsSaved test →
    rootTally test producer.tree.root + producer.orphans.countP test = rootTally test tree.root
  recorded : ∀ node ∈ producer.orphans, node.saved = true
  commits : producer.commitOrphans = committed ++ pers.commits producer.orphans

theorem working_start (pers : Persistence κ ν)
    (checkpoint : Checkpoint tree) (committed : List (Nat × Node κ ν)) :
    Working pers tree committed (.start tree committed) := by
  refine ⟨rfl, checkpoint.sorted, fun node root => ?_, fun k fast added => ?_, fun k removed => ?_,
    fun k _ => rfl, fun k => id, fun test _ => rfl, by simp [start], by simp [start,
      Persistence.commits]⟩
  · apply built_of_base
    rw [show tree.root = some node from root]
    exact mem_subnodes_self node
  · exact absurd added (checkpoint.pending k fast)
  · by_cases root : tree.root = none
    · simp [start, root, rootEntries]
    · exact absurd (checkpoint.settled root k) (by simp [show tree.unsavedFastNodes.get k = _ from removed])

omit [LinearOrder κ] in
theorem countP_filter_saved {test : Node κ ν → Bool} (counts : CountsSaved test)
    (orphans : List (Node κ ν)) : (orphans.filter Node.saved).countP test = orphans.countP test := by
  rw [countP_filter]
  refine countP_congr fun node _ => ?_
  cases saved : node.saved with
  | true => simp
  | false => simp [counts node saved]

variable {orphans : List (Node κ ν)}

theorem Working.record

    (working : Working pers tree committed producer) {tree' : MutableTree κ ν}
    (version : tree'.version = producer.tree.version)
    (sorted : ∀ node, tree'.root = some node → node.Sorted)
    (built : ∀ node, tree'.root = some node →
      node.Built (tree.version + 1) (fun n => n ∈ rootSubnodes tree.root))
    (added : ∀ k fast, tree'.unsavedFastNodes.get k = some (some fast) →
      (rootEntries tree'.root).lookup k = some (fast.value, fast.versionLastUpdatedAt, false))
    (removed : ∀ k, tree'.unsavedFastNodes.get k = some none →
      (rootEntries tree'.root).lookup k = none)
    (same : ∀ k, tree'.unsavedFastNodes.get k = none →
      (rootEntries tree'.root).lookup k = (rootEntries tree.root).lookup k)
    (pending : ∀ k, producer.tree.unsavedFastNodes.get k ≠ none → tree'.unsavedFastNodes.get k ≠ none)
    (conserved : ∀ test, CountsSaved test →
      rootTally test tree'.root + orphans.countP test = rootTally test producer.tree.root) :
    Working pers tree committed
      (addOrphansOptimized pers { producer with tree := tree' } orphans) := by
  obtain ⟨treeEq, recordedEq, commitsEq⟩ :=
    addOrphansOptimized_eq pers { producer with tree := tree' } orphans
  constructor
  · rw [treeEq]
    exact version.trans working.version
  · rw [treeEq]
    exact sorted
  · rw [treeEq]
    exact built
  · rw [treeEq]
    exact added
  · rw [treeEq]
    exact removed
  · rw [treeEq]
    exact same
  · rw [treeEq]
    exact fun k waiting => pending k (working.pending k waiting)
  · intro test counts
    have before := working.conserved test counts
    have now := conserved test counts
    rw [treeEq, recordedEq, countP_append, countP_filter_saved counts]
    dsimp only
    omega
  · intro node inside
    rw [recordedEq] at inside
    rcases mem_append.mp inside with inside | inside
    · exact working.recorded node inside
    · exact (mem_filter.mp inside).2
  · rw [commitsEq, recordedEq]
    rw [working.commits, append_assoc, Persistence.commits, Persistence.commits,
      Persistence.commits, ← map_append, ← filter_append]

theorem Working.setLeaf

    (working : Working pers tree committed producer) {key : κ} {value : ν} {node' : Node κ ν}
    (sorted : node'.Sorted)
    (built : node'.Built (tree.version + 1) (fun n => n ∈ rootSubnodes tree.root))
    (entries : node'.entries =
      put key (value, producer.tree.version + 1, false) (rootEntries producer.tree.root))
    (conserved : ∀ test, CountsSaved test →
      tally test node' + orphans.countP test = rootTally test producer.tree.root) :
    Working pers tree committed (addOrphansOptimized pers
      { producer with tree := { producer.tree with
          root := some node'
          unsavedFastNodes :=
            producer.tree.unsavedFastNodes.add key ⟨producer.tree.version + 1, value⟩ } } orphans) := by
  have looked : ∀ k, node'.entries.lookup k =
      if k = key then some (value, producer.tree.version + 1, false)
      else (rootEntries producer.tree.root).lookup k := by
    intro k
    rw [entries, lookup_put]
  refine working.record rfl ?_ ?_ ?_ ?_ ?_ ?_ conserved
  · rintro _ ⟨⟩
    exact sorted
  · rintro _ ⟨⟩
    exact built
  · intro k fast said
    rw [get_add] at said
    rw [rootEntries, looked]
    split at said
    · rename_i same
      cases Option.some.inj said
      rw [if_pos same]
    · rename_i other
      rw [if_neg other]
      exact working.added k fast said
  · intro k said
    rw [get_add] at said
    rw [rootEntries, looked]
    split at said
    · simp at said
    rename_i other
    rw [if_neg other]
    exact working.removed k said
  · intro k said
    rw [get_add] at said
    rw [rootEntries, looked]
    split at said
    · simp at said
    rename_i other
    rw [if_neg other]
    exact working.same k said
  · intro k said
    rw [get_add]
    split
    · simp
    · exact said

theorem Working.set (checkpoint : Checkpoint tree)

    (working : Working pers tree committed producer) (key : κ) (value : ν) :
    Working pers tree committed (producer.edit pers (.set key value)) := by
  simp only [edit, MutableTree.set, setOrphans]
  cases root : producer.tree.root with
  | none =>
    refine working.setLeaf (sorted_leaf ..) ?_ ?_ ?_
    · rw [working.version]
      exact built_new key value
    · rw [root]
      rfl
    · intro test counts
      rw [root, tally_new counts]
      rfl
  | some node =>
    have sorted := working.sorted node root
    refine working.setLeaf ((updated_recursiveSet _ key value node [] sorted).sorted sorted) ?_ ?_ ?_
    · rw [working.version]
      exact built_recursiveSet checkpoint.base key [] (working.built node root) value
    · rw [root]
      exact entries_recursiveSet _ key value [] sorted
    · intro test counts
      rw [root, tally_recursiveSet counts]
      rfl

theorem Working.remove {pers : Persistence κ ν} {tree : MutableTree κ ν}
    (checkpoint : Checkpoint tree) {committed : List (Nat × Node κ ν)} {producer : Producer κ ν}
    (working : Working pers tree committed producer) (key : κ) :
    Working pers tree committed (producer.edit pers (.remove key)) := by
  simp only [edit, MutableTree.remove, removeOrphans]
  cases root : producer.tree.root with
  | none => exact working
  | some node =>
    have sorted := working.sorted node root
    dsimp only
    split
    · rename_i missed
      rw [isEmpty_iff.mp missed]
      exact working
    rename_i found
    have entries := entries_recursiveRemove (producer.tree.version + 1) key sorted
    have looked : ∀ k, (rootEntries
        (node.recursiveRemove (producer.tree.version + 1) key []).newSelf).lookup k =
          if k = key then none else (rootEntries producer.tree.root).lookup k := by
      intro k
      rw [entries, lookup_cut, root]
      rfl
    refine working.record rfl ?_ ?_ ?_ ?_ ?_ ?_ ?_
    · intro node' self
      rcases recursiveRemove_spec (producer.tree.version + 1) key node sorted with removed | missed
      · exact removed.sorted sorted self
      · simp [missed.eq] at found
    · rw [working.version]
      exact built_recursiveRemove checkpoint.base key [] (working.built node root)
    · intro k fast said
      rw [get_remove] at said
      rw [looked]
      split at said
      · simp at said
      rename_i other
      rw [if_neg other]
      exact working.added k fast said
    · intro k said
      rw [get_remove] at said
      rw [looked]
      split at said
      · rename_i same
        rw [if_pos same]
      · rename_i other
        rw [if_neg other]
        exact working.removed k said
    · intro k said
      rw [get_remove] at said
      rw [looked]
      split at said
      · simp at said
      rename_i other
      rw [if_neg other]
      exact working.same k said
    · intro k said
      rw [get_remove]
      split
      · simp
      · exact said
    · intro test counts
      rw [root]
      exact tally_recursiveRemove counts _ key node

theorem working_edits (pers : Persistence κ ν)
    (checkpoint : Checkpoint tree) (committed : List (Nat × Node κ ν)) (edits : List (Edit κ ν)) :
    Working pers tree committed (edits.foldl (edit pers) (.start tree committed)) := by
  have all : ∀ producer, Working pers tree committed producer →
      Working pers tree committed (edits.foldl (edit pers) producer) := by
    induction edits with
    | nil => exact fun _ working => working
    | cons edit rest ih =>
      intro producer working
      refine ih _ ?_
      cases edit with
      | set key value => exact working.set checkpoint key value
      | remove key => exact working.remove checkpoint key
  exact all _ (working_start pers checkpoint committed)

end Exchain.Iavl
