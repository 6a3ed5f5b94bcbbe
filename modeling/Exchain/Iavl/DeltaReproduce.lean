import Exchain.Iavl.DeltaFollow

namespace Exchain.Iavl

open SortedPairs Node FastNodeChanges List
open Option hiding map_map

variable {κ ν : Type}

theorem mem_rootEntries (root : Option (Node κ ν)) (key : κ) (value : ν) (version : Nat)
    (saved : Bool) : (key, value, version, saved) ∈ rootEntries root ↔
      .leaf key value version saved ∈ rootSubnodes root := by
  cases root with
  | none => simp [rootEntries, rootSubnodes]
  | some node => exact mem_entries node key value version saved

theorem rootTally_eq (test : Node κ ν → Bool) (root : Option (Node κ ν)) :
    rootTally test root = (rootSubnodes root).countP test := by
  cases root <;> rfl

variable [LinearOrder κ]

theorem ordered_rootEntries {root : Option (Node κ ν)}
    (sorted : ∀ node, root = some node → node.Sorted) : Ordered (· < ·) (rootEntries root) := by
  cases root with
  | none => simp [rootEntries]
  | some node => exact (sorted node rfl).ordered_entries

variable [DecidableEq ν]

theorem Node.count_leaf (node : Node κ ν) (key : κ) (value : ν) (version : Nat) (saved : Bool) :
    node.subnodes.count (.leaf key value version saved) =
      node.entries.count (key, value, version, saved) := by
  induction node with
  | leaf =>
    simp [subnodes, entries, marked, contents, count_singleton]
  | inner nodeKey height size nodeVersion nodeSaved left right ihLeft ihRight =>
    have split : entries (.inner nodeKey height size nodeVersion nodeSaved left right) =
        left.entries ++ right.entries := rfl
    rw [subnodes, count_cons_of_ne (by simp), count_append, ihLeft, ihRight, split,
      count_append]

theorem count_rootSubnodes_leaf (root : Option (Node κ ν)) (key : κ) (value : ν) (version : Nat)
    (saved : Bool) : (rootSubnodes root).count (.leaf key value version saved) =
      (rootEntries root).count (key, value, version, saved) := by
  cases root with
  | none => rfl
  | some node => exact node.count_leaf key value version saved

theorem count_rootEntries_le {root : Option (Node κ ν)}
    (sorted : ∀ node, root = some node → node.Sorted) (entry : κ × ν × Nat × Bool) :
    (rootEntries root).count entry ≤ 1 := by
  refine nodup_iff_count_le_one.mp ?_ entry
  exact (ordered_rootEntries sorted).imp fun less same => absurd (same ▸ less) (lt_irrefl _)

omit [DecidableEq ν] in
theorem Checkpoint.no_additions {tree : MutableTree κ ν} (checkpoint : Checkpoint tree) (k : κ) :
    tree.unsavedFastNodes.additions.lookup k = none := by
  cases found : tree.unsavedFastNodes.additions.lookup k with
  | none => rfl
  | some fast => exact absurd (get_of_addition found) (checkpoint.pending k fast)

namespace Working

variable {pers : Persistence κ ν} {tree : MutableTree κ ν} {committed : List (Nat × Node κ ν)}
  {producer : Producer κ ν} (checkpoint : Checkpoint tree)
  (working : Working pers tree committed producer)
include checkpoint working

omit [DecidableEq ν] in
theorem added_iff (k : κ) (fast : FastNode ν) :
    producer.tree.unsavedFastNodes.get k = some (some fast) ↔
      (k, fast.value, fast.versionLastUpdatedAt, false) ∈ rootEntries producer.tree.root := by
  rw [(ordered_rootEntries working.sorted).mem_iff_lookup]
  constructor
  · exact working.added k fast
  intro found
  cases changed : producer.tree.unsavedFastNodes.get k with
  | none =>
    rw [working.same k changed] at found
    have there := (mem_rootEntries ..).mp (mem_of_lookup found)
    exact absurd (checkpoint.saved _ there) (by simp [Node.saved])
  | some change =>
    cases change with
    | none => rw [working.removed k changed] at found; simp at found
    | some fast' =>
      rw [working.added k fast' changed] at found
      congr
      cases fast; cases fast'
      simp_all

omit checkpoint in
/-- A saved node is in the tree or among the orphans as often as it was there. -/
theorem count_add {n : Node κ ν} (saved : n.saved = true) :
    (rootSubnodes producer.tree.root).count n + producer.orphans.count n =
      (rootSubnodes tree.root).count n := by
  have conserved := working.conserved (· == n) fun m unsaved => beq_false_of_ne (by
    rintro rfl
    simp [saved] at unsaved)
  rwa [rootTally_eq, rootTally_eq] at conserved

omit checkpoint in
theorem mem_rootSubnodes_of_mem_orphans {n : Node κ ν} (orphaned : n ∈ producer.orphans) :
    n ∈ rootSubnodes tree.root := by
  have counted := working.count_add (working.recorded n orphaned)
  have positive := count_pos_iff.mpr orphaned
  exact count_pos_iff.mp (by omega)

theorem leaf_mem_orphans (k : κ) (v : ν) (version : Nat) :
    .leaf k v version true ∈ producer.orphans ↔ (k, v, version, true) ∈ rootEntries tree.root ∧
        (k, v, version, true) ∉ rootEntries producer.tree.root := by
  have counted := working.count_add (n := .leaf k v version true) rfl
  rw [count_rootSubnodes_leaf, count_rootSubnodes_leaf] at counted
  have before := count_rootEntries_le checkpoint.sorted (k, v, version, true)
  rw [← count_pos_iff, ← count_pos_iff, ← count_pos_iff (a := (k, v, version, true))]
  omega

/-- The keys that a follower finds removed by the orphans are those that were there. -/
theorem removed_iff (k : κ) :
    ((∃ n ∈ producer.orphans, (nodeToNodeJson n).isLeaf = true ∧ (nodeToNodeJson n).key = k) ∧
        ∀ fast, producer.tree.unsavedFastNodes.get k ≠ some (some fast)) ↔
      producer.tree.unsavedFastNodes.get k = some none ∧
        (rootEntries tree.root).lookup k ≠ none := by
  constructor
  · rintro ⟨⟨n, orphaned, isLeaf, rfl⟩, notAdded⟩
    have there := working.mem_rootSubnodes_of_mem_orphans orphaned
    have saved := working.recorded n orphaned
    cases n with
    | inner _ height =>
      have tall : 0 < height := checkpoint.tall _ there
      simp [nodeToNodeJson, NodeJson.isLeaf, tall.ne'] at isLeaf
    | leaf key value version s =>
      obtain rfl : s = true := saved
      obtain ⟨before, after⟩ := (working.leaf_mem_orphans checkpoint ..).mp orphaned
      rw [(ordered_rootEntries checkpoint.sorted).mem_iff_lookup] at before
      rw [(ordered_rootEntries working.sorted).mem_iff_lookup] at after
      refine ⟨?_, by simp [nodeToNodeJson, show _ = _ from before]⟩
      cases changed : producer.tree.unsavedFastNodes.get (nodeToNodeJson
          (.leaf key value version true)).key with
      | none => exact absurd ((working.same _ changed).trans before) after
      | some change =>
        cases change with
        | none => rfl
        | some fast => exact absurd changed (notAdded fast)
  · rintro ⟨removed, before⟩
    obtain ⟨⟨value, version, saved⟩, found⟩ := ne_none_iff_exists'.mp before
    have there := (mem_rootEntries ..).mp (mem_of_lookup found)
    obtain rfl : saved = true := checkpoint.saved _ there
    refine ⟨⟨.leaf k value version true, ?_, rfl, rfl⟩, by simp [removed]⟩
    refine (working.leaf_mem_orphans checkpoint ..).mpr ⟨mem_of_lookup found, fun inside => ?_⟩
    rw [(ordered_rootEntries working.sorted).mem_iff_lookup, working.removed k removed] at inside
    simp at inside

end Working

omit [LinearOrder κ] [DecidableEq ν] in
theorem Persistence.commits_eq_nil_iff (pers : Persistence κ ν) (orphans : List (Node κ ν)) :
    pers.commits orphans = [] ↔ ∀ node ∈ orphans, (pers.persisted node && pers.pruning) = false := by
  simp [commits]

namespace Producer

variable {producer : Producer κ ν}

theorem saveVersion_unsaved {node : Node κ ν}
    (root : producer.tree.root = some node) (unsaved : node.saved = false) :
    producer.saveVersion = ⟨(((node.updateBranchConcurrency ∅).erase
        (NodeKey.hash node.updateBranch)).insert NodeKey.root
          (nodeToNodeJson node.updateBranch)).pairs,
      producer.orphans.map nodeToNodeJson, []⟩ := by
  have some_new : (node.updateBranchConcurrency ∅).entries.isEmpty = false := by
    have found := lookup_updateBranchConcurrency node ∅ (.hash node.updateBranch)
    dsimp only at found
    rw [if_pos (mem_freshNodes_self unsaved), AList.lookup_eq_some_iff] at found
    rw [isEmpty_eq_false_iff]
    exact ne_nil_of_mem found
  simp [saveVersion, root, some_new, TreeDelta.empty]

theorem saveVersion_saved {node : Node κ ν}
    (root : producer.tree.root = some node) (saved : node.saved = true) :
    producer.saveVersion = ⟨[], producer.orphans.map nodeToNodeJson, []⟩ := by
  simp [saveVersion, root, updateBranchConcurrency_saved saved, TreeDelta.empty, AList.pairs]

theorem saveVersion_empty (root : producer.tree.root = none) : producer.saveVersion = .empty := by
  simp [saveVersion, root]

end Producer

namespace Follower

variable {additions : AssocMap κ (FastNode ν)} {nodes : List (NodeJson κ ν)}

omit [DecidableEq ν] in
theorem of_lookup_foldl_addAddition {k : κ} {fast : FastNode ν}
    (found : (nodes.foldl addAddition additions).lookup k = some fast) :
    additions.lookup k = some fast ∨ ∃ node ∈ nodes, node.key = k ∧ node.fastNode = some fast := by
  induction nodes generalizing additions with
  | nil => exact .inl found
  | cons node rest ih =>
    rcases ih found with before | ⟨later, inside, same⟩
    · unfold addAddition at before
      split at before
      · rename_i fast' leaf
        rw [AList.lookup_insert_if] at before
        split at before
        · rename_i same
          cases before
          exact .inr ⟨node, mem_cons_self, same.symm, leaf⟩
        · exact .inl before
      · exact .inl before
    · exact .inr ⟨later, mem_cons_of_mem _ inside, same⟩

omit [DecidableEq ν] in
theorem lookup_foldl_addAddition_ne_none {k : κ}
    (known : additions.lookup k ≠ none ∨ ∃ node ∈ nodes, node.key = k ∧ node.fastNode ≠ none) :
    (nodes.foldl addAddition additions).lookup k ≠ none := by
  induction nodes generalizing additions with
  | nil => simpa using known
  | cons _ _ ih =>
    refine ih ?_
    rcases known with before | ⟨later, inside, same, leaf⟩
    · left
      unfold addAddition
      split
      · rw [AList.lookup_insert_if]
        split
        · simp
        · exact before
      · exact before
    · rcases mem_cons.mp inside with rfl | inside
      · left
        obtain ⟨_, found⟩ := ne_none_iff_exists'.mp leaf
        simp [addAddition, found, ← same]
      · exact .inr ⟨later, inside, same, leaf⟩

omit [DecidableEq ν] in
theorem mem_foldl_addRemoval (additions : AssocMap κ (FastNode ν)) (orphans : List (NodeJson κ ν))
    (removals : AssocMap κ Unit) (k : κ) : k ∈ orphans.foldl (addRemoval additions) removals ↔
      k ∈ removals ∨ ((∃ node ∈ orphans, node.isLeaf = true ∧ node.key = k) ∧ k ∉ additions) := by
  induction orphans generalizing removals with
  | nil => simp
  | cons node rest ih =>
    rw [foldl_cons, ih]
    unfold addRemoval
    by_cases leaf : node.isLeaf = true
    · by_cases added : node.key ∈ additions
      · simp only [leaf, added, decide_true, Bool.not_true, Bool.and_false, Bool.false_eq_true,
          mem_cons, exists_eq_or_imp]
        constructor
        · exact Or.imp_right fun ⟨found, absent⟩ => ⟨.inr found, absent⟩
        rintro (before | ⟨⟨-, rfl⟩ | found, absent⟩)
        · exact .inl before
        · exact absurd added absent
        · exact .inr ⟨found, absent⟩
      simp only [leaf, added, decide_false, Bool.not_false, Bool.and_self, if_true,
        AList.mem_insert, mem_cons, exists_eq_or_imp, true_and]
      constructor
      · rintro ((rfl | before) | ⟨found, absent⟩)
        · exact .inr ⟨.inl rfl, added⟩
        · exact .inl before
        · exact .inr ⟨.inr found, absent⟩
      · rintro (before | ⟨rfl | found, absent⟩)
        · exact .inl (.inr before)
        · exact .inl (.inl rfl)
        · exact .inr ⟨found, absent⟩
    · simp [leaf]

def start (tree : MutableTree κ ν) (nodes : Node κ ν → Option (NodeJson κ ν))
    (committed : List (Nat × Node κ ν)) : Follower κ ν :=
  ⟨tree.root.map nodeToNodeJson, nodes, ∅, [], committed, tree.unsavedFastNodes.additions,
    tree.unsavedFastNodes.removals⟩

structure Reproduced (producer : Producer κ ν) (follower : Follower κ ν) : Prop where
  rootHash : follower.root.map NodeJson.hash = producer.tree.root.map updateBranch
  contents : ∀ node, producer.tree.root = some node →
    Walks follower.nodes node.updateBranch node.contents
  orphans : follower.orphans = producer.orphans.map nodeToNodeJson
  commitOrphans : follower.commitOrphans = producer.commitOrphans
  additions : ∀ k, follower.additions.lookup k = producer.tree.unsavedFastNodes.additions.lookup k
  removals : ∀ k, k ∈ follower.removals ↔ k ∈ producer.tree.unsavedFastNodes.removals

/-- The versions whose delta says all: the root is new or unchanged, nothing persisted is orphaned
while pruning is on, no key was both set for the first time and removed, and no key whose removal
was waiting is set. -/
structure Reproducible (pers : Persistence κ ν) (tree : MutableTree κ ν)
    (producer : Producer κ ν) : Prop where
  root : (∃ node, producer.tree.root = some node ∧ node.saved = false) ∨
    producer.tree.root = tree.root
  commits : ∀ node ∈ producer.orphans, (pers.persisted node && pers.pruning) = false
  removals : ∀ k ∈ producer.tree.unsavedFastNodes.removals,
    k ∈ tree.unsavedFastNodes.removals ∨ (rootEntries tree.root).lookup k ≠ none
  pending : ∀ k ∈ tree.unsavedFastNodes.removals, k ∈ producer.tree.unsavedFastNodes.removals

variable {follower : Follower κ ν}

theorem lookup_setDelta (fresh : follower.savedNodes = ∅)
    {delta : TreeDelta κ ν} {savedNodes : SavedNodes κ ν} (sent : delta.nodesDelta = savedNodes.pairs)
    (key : NodeKey κ ν) :
    (follower.setDelta delta).savedNodes.lookup key = savedNodes.lookup key := by
  rw [setDelta, sent, fresh, AList.pairs, foldl_map]
  refine (AList.foldl_entries (fun m key => AList.lookup key m) (fun value _ => some value)
    (fun _ _ _ => ?_) savedNodes.nodupKeys ∅ key).trans ?_
  · exact AList.lookup_insert_if ..
  · change (savedNodes.lookup key).elim _ _ = _
    cases savedNodes.lookup key <;> rfl

section

variable {pers : Persistence κ ν} {tree : MutableTree κ ν} {committed : List (Nat × Node κ ν)}
  {producer : Producer κ ν} {nodes : Node κ ν → Option (NodeJson κ ν)} {node : Node κ ν}
  (checkpoint : Checkpoint tree) (working : Working pers tree committed producer)
  (root : producer.tree.root = some node) (unsaved : node.saved = false)
  (sent : follower = (start tree nodes committed).setDelta producer.saveVersion)
include checkpoint working root unsaved sent

omit checkpoint working in
theorem lookup_received (key : NodeKey κ ν) : follower.savedNodes.lookup key =
      match key with
      | .root => some (nodeToNodeJson node.updateBranch)
      | .hash n =>
        if n ≠ node.updateBranch ∧ n ∈ node.freshNodes then some (nodeToNodeJson n) else none := by
  rw [sent]
  refine (lookup_setDelta rfl ?_ key).trans (lookup_savedNodes node key)
  rw [Producer.saveVersion_unsaved root unsaved]

omit checkpoint working in
theorem mem_received (json : NodeJson κ ν) : json ∈ follower.savedNodes.pairs.map Prod.snd ↔
    ∃ n ∈ node.freshNodes, json = nodeToNodeJson n := by
  rw [AList.mem_values_iff]
  constructor
  · rintro ⟨key, found⟩
    rw [lookup_received root unsaved sent] at found
    cases key with
    | root => exact ⟨_, mem_freshNodes_self unsaved, (Option.some.inj found).symm⟩
    | hash n =>
      obtain ⟨⟨-, fresh⟩, same⟩ := ite_none_right_eq_some.mp found
      exact ⟨n, fresh, (Option.some.inj same).symm⟩
  · rintro ⟨n, fresh, rfl⟩
    by_cases same : n = node.updateBranch
    · exact ⟨.root, by rw [lookup_received root unsaved sent, same]⟩
    · exact ⟨.hash n, by rw [lookup_received root unsaved sent]; exact if_pos ⟨same, fresh⟩⟩

theorem received_leaf_iff (k : κ) (fast : FastNode ν) :
    (∃ json ∈ follower.savedNodes.pairs.map Prod.snd, json.key = k ∧ json.fastNode = some fast) ↔
      producer.tree.unsavedFastNodes.get k = some (some fast) := by
  have built := working.built node root
  rw [working.added_iff checkpoint, root]
  change _ ↔ _ ∈ node.entries
  rw [← built.leaf_mem_freshNodes checkpoint.base checkpoint.saved]
  constructor
  · rintro ⟨json, received, rfl, leaf⟩
    obtain ⟨n, fresh, rfl⟩ := (mem_received root unsaved sent json).mp received
    have tall := built.tall_updateBranch checkpoint.base n (mem_subnodes_of_mem_freshNodes fresh)
    cases n with
    | leaf key value version saved =>
      obtain rfl : fast = ⟨version, value⟩ := by
        simpa [nodeToNodeJson, NodeJson.fastNode, NodeJson.isLeaf] using leaf.symm
      obtain rfl : saved = true := saved_of_mem_freshNodes fresh
      exact fresh
    | inner _ height =>
      have inner : height ≠ 0 := Nat.pos_iff_ne_zero.mp tall
      simp [nodeToNodeJson, NodeJson.fastNode, NodeJson.isLeaf, inner] at leaf
  · intro fresh
    exact ⟨_, (mem_received root unsaved sent _).mpr ⟨_, fresh, rfl⟩, rfl, rfl⟩

theorem additions_received (k : κ) : follower.additions.lookup k =
    producer.tree.unsavedFastNodes.additions.lookup k := by
  ext fast
  rw [← get_eq_added_iff, ← received_leaf_iff checkpoint working root unsaved sent]
  have received : ∀ {fast}, follower.additions.lookup k = some fast →
      ∃ json ∈ follower.savedNodes.pairs.map Prod.snd, json.key = k ∧ json.fastNode = some fast := by
    intro fast found
    rw [sent] at found ⊢
    rcases of_lookup_foldl_addAddition found with before | received
    · rw [show (start tree nodes committed).additions.lookup k = none from
        checkpoint.no_additions k] at before
      simp at before
    · exact received
  refine ⟨received, ?_⟩
  rintro ⟨json, inside, same, valued⟩
  have known : follower.additions.lookup k ≠ none := by
    rw [sent] at inside ⊢
    exact lookup_foldl_addAddition_ne_none (.inr ⟨json, inside, same, by simp [valued]⟩)
  obtain ⟨fast', found⟩ := ne_none_iff_exists'.mp known
  have first := (received_leaf_iff checkpoint working root unsaved sent k fast').mp (received found)
  have second := (received_leaf_iff checkpoint working root unsaved sent k fast).mp
    ⟨json, inside, same, valued⟩
  rw [found, ← Option.some.inj (Option.some.inj (first.symm.trans second))]

theorem mem_removals_received (k : κ) : k ∈ follower.removals ↔
    k ∈ tree.unsavedFastNodes.removals ∨
      (k ∈ producer.tree.unsavedFastNodes.removals ∧ (rootEntries tree.root).lookup k ≠ none) := by
  have orphaned : producer.saveVersion.orphansDelta = producer.orphans.map nodeToNodeJson := by
    rw [Producer.saveVersion_unsaved root unsaved]
  have unadded : k ∉ follower.additions ↔
      ∀ fast, producer.tree.unsavedFastNodes.get k ≠ some (some fast) := by
    rw [AList.mem_iff_lookup, additions_received checkpoint working root unsaved sent]
    simp [get_eq_added_iff]
  rw [sent] at unadded ⊢
  refine (mem_foldl_addRemoval _ _ _ k).trans (or_congr Iff.rfl ?_)
  rw [orphaned, ← get_eq_removed_iff, ← working.removed_iff checkpoint]
  refine and_congr ?_ unadded
  simp

variable (holding : ∀ n ∈ rootSubnodes tree.root, nodes n = some (nodeToNodeJson n))

include holding

/-- What a follower has once it saved a delta with a new root. -/
theorem saveVersion_received {fuel : Nat} (enough : node.nodeSize ≤ fuel) :
    ∃ follower', follower.saveVersion fuel = some follower' ∧
      follower'.root = some (nodeToNodeJson node.updateBranch) ∧
      follower'.Knows node.updateBranch ∧
      follower'.orphans = producer.orphans.map nodeToNodeJson ∧ follower'.commitOrphans = committed ∧
      follower'.additions = follower.additions ∧ follower'.removals = follower.removals := by
  have built := working.built node root
  have looked : ∀ key, follower.savedNodes.lookup key = _ := lookup_received root unsaved sent
  have orphans : follower.orphans = producer.orphans.map nodeToNodeJson := by
    rw [sent, Producer.saveVersion_unsaved root unsaved]
    rfl
  have commits : follower.commitOrphans = committed := by
    rw [sent, Producer.saveVersion_unsaved root unsaved]
    exact append_nil committed
  have readable : follower.nodes = nodes := by
    rw [sent]
    rfl
  have newRoot := looked .root
  have consistent : Consistent { follower with root := follower.savedNodes.lookup .root } := by
    intro n json found
    have found := (looked (.hash n)).symm.trans found
    exact (Option.some.inj (ite_none_right_eq_some.mp found).2).symm
  have linked : Linked { follower with root := follower.savedNodes.lookup .root }
      node.updateBranch := by
    refine linked_updateBranch checkpoint.base ?_ ?_ built ?_
    · refine fun n inside => (looked (.hash n)).trans (if_neg fun both => ?_)
      have new := built.version_of_mem_freshNodes checkpoint.base checkpoint.saved both.2
      have old := checkpoint.older n inside
      omega
    · exact fun n inside => (congrFun readable n).trans (holding n inside)
    · intro n fresh apart absent
      have found := (looked (.hash n)).symm.trans absent
      dsimp only at found
      rw [if_pos ⟨apart, fresh⟩] at found
      simp at found
  obtain ⟨follower', done, grown, knows, -⟩ :=
    updates_of_linked consistent linked ((nodeSize_updateBranch node).trans_le enough)
  refine ⟨follower', ?_, grown.root.trans newRoot, knows, grown.orphans.trans orphans,
    grown.commitOrphans.trans commits, grown.additions, grown.removals⟩
  have some_new : follower.hasNewNode = true := by
    have inside := (AList.lookup_eq_some_iff ..).mp newRoot
    rw [hasNewNode, Bool.not_eq_true', isEmpty_eq_false_iff]
    exact ne_nil_of_mem inside
  rw [saveVersion, if_pos some_new]
  rw [newRoot] at done ⊢
  dsimp only
  rw [done]
  rfl

omit sent in
theorem reproduced_iff_of_unsaved {fuel : Nat} (enough : node.nodeSize ≤ fuel) :
    (∃ follower, ((start tree nodes committed).setDelta producer.saveVersion).saveVersion fuel =
        some follower ∧ Reproduced producer follower) ↔ Reproducible pers tree producer := by
  obtain ⟨follower, done, rootJson, knows, orphans, commits, additions, removals⟩ :=
    saveVersion_received checkpoint working root unsaved rfl holding enough
  have removed := mem_removals_received checkpoint working root unsaved
    (rfl : _ = (start tree nodes committed).setDelta _)
  rw [← removals] at removed
  constructor
  · rintro ⟨_, done', reproduced⟩
    cases done.symm.trans done'
    refine ⟨.inl ⟨node, root, unsaved⟩, ?_, fun k => ?_, fun k => ?_⟩
    · rw [← pers.commits_eq_nil_iff]
      have same := commits.symm.trans (reproduced.commitOrphans.trans working.commits)
      exact append_cancel_left (same.symm.trans (append_nil committed).symm)
    · rw [← reproduced.removals k, removed]
      exact Or.imp_right And.right
    · intro waiting
      exact (reproduced.removals k).mp ((removed k).mpr (.inl waiting))
  intro reproducible
  refine ⟨follower, done, ?_, ?_, orphans, ?_, fun k => ?_, fun k => ?_⟩
  · rw [rootJson, root, map_some, map_some, hash_nodeToNodeJson]
  · intro node' root'
    cases root.symm.trans root'
    rw [← (reshaped_updateBranch node).contents]
    exact walks_of_knows ((working.built node root).tall_updateBranch checkpoint.base) knows
  · rw [commits, working.commits, (pers.commits_eq_nil_iff _).mpr reproducible.commits,
      append_nil]
  · rw [additions]
    exact additions_received checkpoint working root unsaved rfl k
  · rw [removed]
    refine ⟨?_, fun removal => ?_⟩
    · rintro (waiting | ⟨removal, -⟩)
      · exact reproducible.pending k waiting
      · exact removal
    · exact (reproducible.removals k removal).imp_right fun there => ⟨removal, there⟩

end

section

variable {pers : Persistence κ ν} {tree : MutableTree κ ν} {committed : List (Nat × Node κ ν)}
  {producer : Producer κ ν} {nodes : Node κ ν → Option (NodeJson κ ν)}
  (checkpoint : Checkpoint tree) (working : Working pers tree committed producer)
  (same : producer.tree.root = tree.root)
include checkpoint working same

omit checkpoint in
theorem orphans_of_same_root : producer.orphans = [] := by
  rw [eq_nil_iff_forall_not_mem]
  intro n orphaned
  have counted := working.count_add (working.recorded n orphaned)
  have positive := count_pos_iff.mpr orphaned
  rw [same] at counted
  omega

theorem saveVersion_of_same_root : producer.saveVersion = .empty := by
  cases root : tree.root with
  | none => exact Producer.saveVersion_empty (same.trans root)
  | some node =>
    have saved : node.saved = true :=
      checkpoint.saved node (by rw [root]; exact mem_subnodes_self node)
    rw [Producer.saveVersion_saved (same.trans root) saved, orphans_of_same_root working same]
    rfl

theorem reproduced_iff_of_same_root
    (holding : ∀ n ∈ rootSubnodes tree.root, nodes n = some (nodeToNodeJson n)) (fuel : Nat) :
    (∃ follower, ((start tree nodes committed).setDelta producer.saveVersion).saveVersion fuel =
        some follower ∧ Reproduced producer follower) ↔ Reproducible pers tree producer := by
  have orphans := orphans_of_same_root working same
  have kept : (start tree nodes committed).setDelta producer.saveVersion =
      start tree nodes committed := by
    rw [saveVersion_of_same_root checkpoint working same]
    simp [setDelta, TreeDelta.empty, start, AList.pairs]
  have done : (start tree nodes committed).saveVersion fuel = some (start tree nodes committed) := rfl
  have gone : ∀ k ∈ producer.tree.unsavedFastNodes.removals,
      (rootEntries tree.root).lookup k = none := by
    intro k removal
    rw [← same]
    exact working.removed k ((get_eq_removed_iff ..).mpr removal)
  have saved : ∀ node, tree.root = some node → node.saved = true :=
    fun node root => checkpoint.saved node (by rw [root]; exact mem_subnodes_self node)
  rw [kept]
  constructor
  · rintro ⟨_, ⟨⟩, reproduced⟩
    refine ⟨.inr same, by simp [orphans], fun k removal => ?_, fun k waiting => ?_⟩
    · exact .inl ((reproduced.removals k).mpr removal)
    · exact (reproduced.removals k).mp waiting
  intro reproducible
  refine ⟨_, rfl, ?_, ?_, ?_, ?_, fun k => ?_, fun k => ⟨reproducible.pending k, fun removal => ?_⟩⟩
  · rw [same, start, Option.map_map]
    refine map_congr fun node root => ?_
    rw [updateBranch_saved (saved node root)]
    exact hash_nodeToNodeJson node
  · intro node root
    rw [same] at root
    rw [root] at holding
    rw [updateBranch_saved (saved node root)]
    exact walks_of_knows
      (fun n below => checkpoint.tall n (by rwa [root])) holding
  · rw [orphans]
    rfl
  · rw [working.commits, orphans]
    exact (append_nil committed).symm
  · have before := checkpoint.no_additions k
    cases found : producer.tree.unsavedFastNodes.additions.lookup k with
    | none => exact before
    | some fast =>
      have inside := (working.added_iff checkpoint k fast).mp
        (get_of_addition found)
      rw [same, mem_rootEntries] at inside
      exact absurd (checkpoint.saved _ inside) (by simp [Node.saved])
  · rcases reproducible.removals k removal with waiting | there
    · exact waiting
    · exact absurd (gone k removal) there

end

theorem root_of_reproduced {tree : MutableTree κ ν} {committed : List (Nat × Node κ ν)}
    {producer : Producer κ ν} {nodes : Node κ ν → Option (NodeJson κ ν)}
    (old : ¬∃ node, producer.tree.root = some node ∧ node.saved = false) {fuel : Nat}
    (done : ((start tree nodes committed).setDelta producer.saveVersion).saveVersion fuel =
      some follower)
    (reproduced : Reproduced producer follower) : producer.tree.root = tree.root := by
  have saved : ∀ node, producer.tree.root = some node → node.saved = true := by
    intro node root
    by_contra unsaved
    exact old ⟨node, root, by simpa using unsaved⟩
  have sent : producer.saveVersion.nodesDelta = [] := by
    cases root : producer.tree.root with
    | none => rw [Producer.saveVersion_empty root]; rfl
    | some node => rw [Producer.saveVersion_saved root (saved node root)]
  have nothing : ((start tree nodes committed).setDelta producer.saveVersion).hasNewNode = false := by
    simp [hasNewNode, setDelta, sent, start]
  rw [saveVersion, nothing] at done
  cases done
  have rootHash : (tree.root.map nodeToNodeJson).map NodeJson.hash =
      producer.tree.root.map updateBranch := reproduced.rootHash
  have mine : (tree.root.map nodeToNodeJson).map NodeJson.hash = tree.root := by
    rw [Option.map_map]
    exact (map_congr fun node _ => hash_nodeToNodeJson node).trans map_id'
  have yours := (map_congr fun node root => updateBranch_saved (saved node root)).trans
      map_id'
  rw [← yours, ← rootHash, mine]

end Follower

end Exchain.Iavl
