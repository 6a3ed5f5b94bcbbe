import Exchain.Iavl.DeltaEdits

namespace Exchain.Iavl

open SortedPairs Node List

variable {κ ν : Type}

/-- The nodes that get their hash, with it. -/
def Node.freshNodes : Node κ ν → List (Node κ ν)
  | .leaf key value version saved => if saved then [] else [.leaf key value version true]
  | .inner key height size version saved left right =>
    if saved then []
    else .inner key height size version true left.updateBranch right.updateBranch ::
      (left.freshNodes ++ right.freshNodes)

variable {node : Node κ ν}

theorem mem_freshNodes_self (unsaved : node.saved = false) :
    node.updateBranch ∈ node.freshNodes := by
  cases node with
  | leaf _ _ _ s =>
    obtain rfl : s = false := unsaved
    simp [Node.freshNodes, updateBranch]
  | inner _ _ _ _ s =>
    obtain rfl : s = false := unsaved
    simp [Node.freshNodes, updateBranch]

theorem updateBranch_saved (saved : node.saved = true) : node.updateBranch = node := by
  cases node with
  | leaf _ _ _ s =>
    obtain rfl : s = true := saved
    rfl
  | inner _ _ _ _ s =>
    obtain rfl : s = true := saved
    rfl

variable {n : Node κ ν}

theorem mem_freshNodes_leaf {key : κ} {value : ν} {version : Nat} {saved : Bool} :
    n ∈ freshNodes (.leaf key value version saved) ↔
      saved = false ∧ n = .leaf key value version true := by
  cases saved <;> simp [Node.freshNodes]

theorem mem_freshNodes_inner {key : κ} {height size version : Nat} {saved : Bool}
    {left right : Node κ ν} : n ∈ freshNodes (.inner key height size version saved left right) ↔
      saved = false ∧
        (n = .inner key height size version true left.updateBranch right.updateBranch ∨
          n ∈ left.freshNodes ∨ n ∈ right.freshNodes) := by
  cases saved <;> simp [Node.freshNodes]

theorem saved_of_mem_freshNodes (fresh : n ∈ node.freshNodes) : n.saved = true := by
  induction node with
  | leaf =>
    obtain ⟨-, rfl⟩ := mem_freshNodes_leaf.mp fresh
    rfl
  | inner _ _ _ _ _ _ _ ihLeft ihRight =>
    obtain ⟨-, rfl | inLeft | inRight⟩ := mem_freshNodes_inner.mp fresh
    · rfl
    · exact ihLeft inLeft
    · exact ihRight inRight

theorem nodeSize_updateBranch (node : Node κ ν) : node.updateBranch.nodeSize = node.nodeSize := by
  induction node with
  | leaf => rfl
  | inner _ _ _ _ _ _ _ ihLeft ihRight =>
    rw [updateBranch]
    split
    · rfl
    · rw [nodeSize, nodeSize, ihLeft, ihRight]

theorem nodeSize_of_mem_freshNodes (fresh : n ∈ node.freshNodes) :
    n.nodeSize ≤ node.updateBranch.nodeSize := by
  induction node with
  | leaf =>
    obtain ⟨-, rfl⟩ := mem_freshNodes_leaf.mp fresh
    rfl
  | inner _ _ _ _ _ _ _ ihLeft ihRight =>
    obtain ⟨rfl, rfl | inLeft | inRight⟩ := mem_freshNodes_inner.mp fresh
    · rfl
    · have below := ihLeft inLeft
      rw [updateBranch, if_neg (by simp), nodeSize]
      omega
    · have below := ihRight inRight
      rw [updateBranch, if_neg (by simp), nodeSize]
      omega

section

variable {version : Nat} {base : Node κ ν → Prop} {node : Node κ ν}

theorem Node.Base.of_mem_subnodes (holds : Base base) (inside : base node)
    (below : n ∈ node.subnodes) : base n := by
  induction node with
  | leaf =>
    obtain rfl := mem_singleton.mp below
    exact inside
  | inner _ _ _ _ _ _ _ ihLeft ihRight =>
    rw [subnodes, mem_cons, mem_append] at below
    rcases below with rfl | below | below
    · exact inside
    · exact ihLeft (holds.left inside) below
    · exact ihRight (holds.right inside) below

variable (built : node.Built version base)
include built

theorem Node.Built.of_saved (saved : node.saved = true) : base node := by
  cases node with
  | leaf =>
    rcases built with inside | ⟨-, unsaved⟩
    · exact inside
    · exact absurd saved (by simp [Node.saved, unsaved])
  | inner =>
    rcases built with inside | ⟨-, -, unsaved, -⟩
    · exact inside
    · exact absurd saved (by simp [Node.saved, unsaved])

omit built in
theorem mem_subnodes_of_mem_freshNodes (fresh : n ∈ node.freshNodes) :
    n ∈ node.updateBranch.subnodes := by
  induction node with
  | leaf =>
    obtain ⟨-, rfl⟩ := mem_freshNodes_leaf.mp fresh
    exact mem_subnodes_self _
  | inner _ _ _ _ _ _ _ ihLeft ihRight =>
    obtain ⟨rfl, which⟩ := mem_freshNodes_inner.mp fresh
    rw [updateBranch, if_neg (by simp), subnodes, mem_cons, mem_append]
    exact which.imp_right (Or.imp ihLeft ihRight)

variable (holds : Base base)
include holds

omit built in
theorem Node.Base.tall_node (inside : base node) : node.Tall := by
  cases node with
  | leaf => trivial
  | inner => exact holds.tall inside

theorem Node.Built.tall_updateBranch :
    ∀ n ∈ node.updateBranch.subnodes, n.Tall := by
  induction node with
  | leaf => simp [updateBranch, subnodes, Node.Tall]
  | inner _ _ _ _ saved _ _ ihLeft ihRight =>
    obtain ⟨tall, builtLeft, builtRight⟩ := built.children holds
    cases saved with
    | true =>
      intro n below
      exact holds.tall_node (holds.of_mem_subnodes (built.of_saved rfl) below)
    | false =>
      rw [updateBranch, if_neg (by simp), subnodes]
      intro n below
      rw [mem_cons, mem_append] at below
      rcases below with rfl | below | below
      · exact tall
      · exact ihLeft builtLeft n below
      · exact ihRight builtRight n below

variable (stored : ∀ n, base n → n.saved = true)
include stored

theorem Node.Built.version_of_mem_freshNodes
    (fresh : n ∈ node.freshNodes) : n.version = version := by
  induction node with
  | leaf =>
    obtain ⟨rfl, rfl⟩ := mem_freshNodes_leaf.mp fresh
    rcases built with inside | ⟨same, -⟩
    · exact absurd (stored _ inside) (by simp [Node.saved])
    · exact same
  | inner _ _ _ _ _ _ _ ihLeft ihRight =>
    obtain ⟨-, builtLeft, builtRight⟩ := built.children holds
    obtain ⟨rfl, rfl | inLeft | inRight⟩ := mem_freshNodes_inner.mp fresh
    · rcases built with inside | ⟨-, same, -⟩
      · exact absurd (stored _ inside) (by simp [Node.saved])
      · exact same
    · exact ihLeft builtLeft inLeft
    · exact ihRight builtRight inRight

theorem Node.Built.leaf_mem_freshNodes (k : κ) (v : ν) (leafVersion : Nat) :
    .leaf k v leafVersion true ∈ node.freshNodes ↔ (k, v, leafVersion, false) ∈ node.entries := by
  induction node with
  | leaf _ _ _ saved =>
    cases saved <;> simp [Node.freshNodes, entries, marked, contents]
  | inner key height size innerVersion saved left right ihLeft ihRight =>
    obtain ⟨-, builtLeft, builtRight⟩ := built.children holds
    cases saved with
    | true =>
      have inside := built.of_saved rfl
      simp only [Node.freshNodes, if_true, not_mem_nil, false_iff, mem_entries]
      intro below
      exact absurd (stored _ (holds.of_mem_subnodes inside below)) (by simp [Node.saved])
    | false =>
      have split : entries (.inner key height size innerVersion false left right) =
          left.entries ++ right.entries := rfl
      simp [Node.freshNodes, split, ihLeft builtLeft, ihRight builtRight]

end

variable [LinearOrder κ] [DecidableEq ν]

theorem lookup_updateBranchConcurrency (node : Node κ ν) (savedNodes : SavedNodes κ ν)
    (key : NodeKey κ ν) : (node.updateBranchConcurrency savedNodes).lookup key = match key with
      | .root => savedNodes.lookup .root
      | .hash n =>
        if n ∈ node.freshNodes then some (nodeToNodeJson n) else savedNodes.lookup (.hash n) := by
  induction node generalizing savedNodes with
  | leaf nodeKey value version saved =>
    unfold Node.updateBranchConcurrency Node.freshNodes
    cases saved with
    | true => cases key <;> simp
    | false =>
      simp only [Bool.false_eq_true, if_false, AList.lookup_insert_if]
      cases key with
      | root => simp
      | hash n =>
        by_cases same : n = .leaf nodeKey value version true
        all_goals simp [same]
  | inner nodeKey height size version saved left right ihLeft ihRight =>
    unfold Node.updateBranchConcurrency Node.freshNodes
    cases saved with
    | true => cases key <;> simp
    | false =>
      simp only [Bool.false_eq_true, if_false, AList.lookup_insert_if, ihRight]
      cases key with
      | root => simp [ihLeft]
      | hash n =>
        by_cases same : n = .inner nodeKey height size version true left.updateBranch
            right.updateBranch
        · simp [same]
        by_cases inRight : n ∈ right.freshNodes
        · simp [same, inRight]
        · simp [same, inRight, ihLeft]

theorem updateBranchConcurrency_saved (saved : node.saved = true)
    (savedNodes : SavedNodes κ ν) : node.updateBranchConcurrency savedNodes = savedNodes := by
  cases node with
  | leaf _ _ _ s =>
    obtain rfl : s = true := saved
    rfl
  | inner _ _ _ _ s =>
    obtain rfl : s = true := saved
    rfl

/-- The nodes in the delta of a tree: all that got their hash, the root under its own name. -/
theorem lookup_savedNodes (node : Node κ ν) (key : NodeKey κ ν) :
    AList.lookup key (((node.updateBranchConcurrency ∅).erase
        (NodeKey.hash node.updateBranch)).insert NodeKey.root (nodeToNodeJson node.updateBranch)) =
      match key with
      | .root => some (nodeToNodeJson node.updateBranch)
      | .hash n =>
        if n ≠ node.updateBranch ∧ n ∈ node.freshNodes then some (nodeToNodeJson n) else none := by
  rw [AList.lookup_insert_if]
  cases key with
  | root => simp
  | hash n =>
    rw [AList.lookup_erase_if, lookup_updateBranchConcurrency]
    by_cases same : n = node.updateBranch
    · simp [same]
    · by_cases fresh : n ∈ node.freshNodes <;> simp [same, fresh]

namespace Follower

/-- Every node below can be read. -/
def Knows (follower : Follower κ ν) (node : Node κ ν) : Prop :=
  ∀ n ∈ node.subnodes, follower.nodes n = some (nodeToNodeJson n)

/-- What updateBranchWithDelta looks for below a node is among the saved nodes or
can be read. -/
def Linked (follower : Follower κ ν) : Node κ ν → Prop
  | .leaf .. => True
  | .inner _ _ _ _ _ left right =>
    ((follower.savedNodes.lookup (.hash left)).isSome → follower.Linked left) ∧
      (follower.savedNodes.lookup (.hash left) = none → follower.Knows left) ∧
      ((follower.savedNodes.lookup (.hash right)).isSome → follower.Linked right) ∧
      (follower.savedNodes.lookup (.hash right) = none → follower.Knows right)

/-- The saved nodes are kept under their hashes. -/
def Consistent (follower : Follower κ ν) : Prop :=
  ∀ n json, follower.savedNodes.lookup (.hash n) = some json → json = nodeToNodeJson n

structure Grown (follower follower' : Follower κ ν) : Prop where
  root : follower'.root = follower.root
  orphans : follower'.orphans = follower.orphans
  commitOrphans : follower'.commitOrphans = follower.commitOrphans
  additions : follower'.additions = follower.additions
  removals : follower'.removals = follower.removals
  nodes : ∀ n, follower.nodes n = some (nodeToNodeJson n) →
    follower'.nodes n = some (nodeToNodeJson n)

theorem Grown.refl (follower : Follower κ ν) : follower.Grown follower :=
  ⟨rfl, rfl, rfl, rfl, rfl, fun _ => id⟩

theorem Grown.trans {a b c : Follower κ ν} (first : a.Grown b) (second : b.Grown c) : a.Grown c :=
  ⟨second.root.trans first.root, second.orphans.trans first.orphans,
    second.commitOrphans.trans first.commitOrphans, second.additions.trans first.additions,
    second.removals.trans first.removals, fun n known => second.nodes n (first.nodes n known)⟩

variable {follower : Follower κ ν} {node : Node κ ν} {follower' : Follower κ ν}

theorem Grown.knows (grown : follower.Grown follower')
    (knows : follower.Knows node) : follower'.Knows node :=
  fun n inside => grown.nodes n (knows n inside)

theorem Grown.linked (grown : follower.Grown follower')
    (same : follower'.savedNodes.lookup = follower.savedNodes.lookup)
    (linked : follower.Linked node) : follower'.Linked node := by
  induction node with
  | leaf => trivial
  | inner _ _ _ _ _ _ _ ihLeft ihRight =>
    obtain ⟨left', knowsLeft, right', knowsRight⟩ := linked
    refine ⟨?_, ?_, ?_, ?_⟩
    · rw [congrFun same]
      exact fun found => ihLeft (left' found)
    · rw [congrFun same]
      exact fun missing => grown.knows (knowsLeft missing)
    · rw [congrFun same]
      exact fun found => ihRight (right' found)
    · rw [congrFun same]
      exact fun missing => grown.knows (knowsRight missing)

def Updates (fuel : Nat) (follower : Follower κ ν) (node : Node κ ν) : Prop :=
  ∃ follower', updateBranchWithDelta fuel follower (nodeToNodeJson node) = some (node, follower') ∧
    follower.Grown follower' ∧ follower'.Knows node ∧
    ∀ key, follower'.savedNodes.lookup key =
      if key = .hash node then some (nodeToNodeJson node) else follower.savedNodes.lookup key

theorem updateChild_eq {fuel : Nat} (consistent : follower.Consistent) {child : Node κ ν}
    (missing : follower.savedNodes.lookup (.hash child) = none → follower.Knows child)
    (found : (follower.savedNodes.lookup (.hash child)).isSome → Updates fuel follower child) :
    ∃ follower', updateChild (updateBranchWithDelta fuel) follower (some child) =
        some (some child, follower') ∧
      follower.Grown follower' ∧ follower'.Knows child ∧
      follower'.savedNodes.lookup = follower.savedNodes.lookup := by
  simp only [updateChild]
  cases looked : follower.savedNodes.lookup (.hash child) with
  | none => exact ⟨follower, rfl, .refl _, missing looked, rfl⟩
  | some json =>
    obtain rfl := consistent child json looked
    obtain ⟨follower', done, grown, knows, saved⟩ := found (by simp [looked])
    refine ⟨follower', by simp only [done, Option.map_some], grown, knows, funext fun key => ?_⟩
    rw [saved key]
    split
    · rename_i same
      rw [same, looked]
    · rfl

omit [LinearOrder κ] [DecidableEq ν] in
theorem hash_nodeToNodeJson (node : Node κ ν) : (nodeToNodeJson node).hash = node := by
  cases node <;> rfl

theorem grown_saveNode (follower : Follower κ ν) (node : Node κ ν) :
    follower.Grown (follower.saveNode (nodeToNodeJson node)) := by
  refine ⟨rfl, rfl, rfl, rfl, rfl, fun n known => ?_⟩
  simp only [saveNode, hash_nodeToNodeJson]
  split
  · rename_i same
    rw [same]
  · exact known

theorem nodes_saveNode (follower : Follower κ ν) (node : Node κ ν) :
    (follower.saveNode (nodeToNodeJson node)).nodes node = some (nodeToNodeJson node) := by
  simp [saveNode, hash_nodeToNodeJson]

theorem lookup_saveNode (follower : Follower κ ν) (node : Node κ ν) (key : NodeKey κ ν) :
    (follower.saveNode (nodeToNodeJson node)).savedNodes.lookup key =
      if key = .hash node then some (nodeToNodeJson node) else follower.savedNodes.lookup key := by
  simp only [saveNode, hash_nodeToNodeJson]
  exact AList.lookup_insert_if ..

theorem updates_of_linked (consistent : follower.Consistent)
    (linked : follower.Linked node) {fuel : Nat} (enough : node.nodeSize ≤ fuel) :
    Updates fuel follower node := by
  induction node generalizing follower fuel with
  | leaf =>
    obtain ⟨fuel, rfl⟩ : ∃ n, fuel = n + 1 := Nat.exists_eq_add_of_le' (by simpa [nodeSize] using enough)
    refine ⟨_, rfl, follower.grown_saveNode _, ?_, follower.lookup_saveNode _⟩
    intro n inside
    obtain rfl := mem_singleton.mp inside
    exact follower.nodes_saveNode _
  | inner key height size version saved left right ihLeft ihRight =>
    obtain ⟨fuel, rfl⟩ : ∃ n, fuel = n + 1 :=
      Nat.exists_eq_add_of_le' (by simp only [nodeSize] at enough; omega)
    simp only [nodeSize] at enough
    obtain ⟨linkedLeft, knowsLeft, linkedRight, knowsRight⟩ := linked
    obtain ⟨first, doneLeft, grownLeft, readLeft, sameLeft⟩ :=
      updateChild_eq consistent knowsLeft fun found =>
        ihLeft consistent (linkedLeft found) (show left.nodeSize ≤ fuel by omega)
    have consistentFirst : first.Consistent := by
      intro n json looked
      rw [congrFun sameLeft] at looked
      exact consistent n json looked
    obtain ⟨second, doneRight, grownRight, readRight, sameRight⟩ := updateChild_eq consistentFirst
        (fun missing => grownLeft.knows (knowsRight (by rwa [congrFun sameLeft] at missing)))
        fun found => ihRight consistentFirst
          (grownLeft.linked sameLeft (linkedRight (by rwa [congrFun sameLeft] at found)))
          (show right.nodeSize ≤ fuel by omega)
    have done : updateBranchWithDelta (fuel + 1) follower
        (nodeToNodeJson (.inner key height size version saved left right)) =
          some (.inner key height size version saved left right,
            second.saveNode (nodeToNodeJson (.inner key height size version saved left right))) := by
      simp only [updateBranchWithDelta, nodeToNodeJson, doneLeft, doneRight, Option.bind_eq_bind,
        Option.bind_some, pure]
    have last := second.grown_saveNode (.inner key height size version saved left right)
    refine ⟨_, done, (grownLeft.trans grownRight).trans last, fun n inside => ?_, fun k => ?_⟩
    · rw [subnodes, mem_cons, mem_append] at inside
      rcases inside with rfl | inside | inside
      · exact second.nodes_saveNode _
      · exact last.knows (grownRight.knows readLeft) n inside
      · exact last.knows readRight n inside
    · rw [second.lookup_saveNode, congrFun sameRight, congrFun sameLeft]

theorem linked_updateBranch {version : Nat} {base : Node κ ν → Prop} (holds : Base base)
    (missing : ∀ n, base n → follower.savedNodes.lookup (.hash n) = none)
    (readable : ∀ n, base n → follower.nodes n = some (nodeToNodeJson n))
    (built : node.Built version base) (found : ∀ n ∈ node.freshNodes, n ≠ node.updateBranch →
      follower.savedNodes.lookup (.hash n) ≠ none) : follower.Linked node.updateBranch := by
  have knows : ∀ n, base n → follower.Knows n :=
    fun n inside m below => readable m (holds.of_mem_subnodes inside below)
  induction node with
  | leaf => trivial
  | inner _ _ _ _ saved left right ihLeft ihRight =>
    cases saved with
    | true =>
      have inside := built.of_saved rfl
      have absent : ∀ {n}, base n → (follower.savedNodes.lookup (.hash n)).isSome →
          follower.Linked n := by
        intro n there some
        rw [missing n there] at some
        simp at some
      exact ⟨absent (holds.left inside), fun _ => knows _ (holds.left inside),
        absent (holds.right inside), fun _ => knows _ (holds.right inside)⟩
    | false =>
      obtain ⟨-, builtLeft, builtRight⟩ := built.children holds
      rw [updateBranch, if_neg (by simp)] at found ⊢
      -- a node below is smaller, so it is not the one that goes by the root's name
      have below : ∀ n, n ∈ left.freshNodes ∨ n ∈ right.freshNodes →
          follower.savedNodes.lookup (.hash n) ≠ none := by
        intro n fresh
        refine found n (by simp [Node.freshNodes, fresh]) fun same => ?_
        rcases fresh with fresh | fresh
        all_goals
          have := nodeSize_of_mem_freshNodes fresh
          rw [same, nodeSize] at this
          omega
      have child : ∀ {c : Node κ ν}, c.Built version base →
          (∀ n ∈ c.freshNodes, follower.savedNodes.lookup (.hash n) ≠ none) →
          follower.savedNodes.lookup (.hash c.updateBranch) = none →
          follower.Knows c.updateBranch := by
        intro c builtChild foundChild absent
        cases saved : c.saved with
        | true =>
          rw [updateBranch_saved saved]
          exact knows c (builtChild.of_saved saved)
        | false => exact absurd absent (foundChild _ (mem_freshNodes_self saved))
      exact ⟨fun _ => ihLeft builtLeft fun n fresh _ => below n (.inl fresh),
        child builtLeft fun n fresh => below n (.inl fresh),
        fun _ => ihRight builtRight fun n fresh _ => below n (.inr fresh),
        child builtRight fun n fresh => below n (.inr fresh)⟩

theorem walks_of_knows (tall : ∀ n ∈ node.subnodes, n.Tall) (knows : follower.Knows node) :
    Walks follower.nodes node node.contents := by
  induction node with
  | leaf =>
    exact .leaf (knows _ (mem_subnodes_self _)) rfl rfl
  | inner _ height _ _ _ _ _ ihLeft ihRight =>
    have inner : height ≠ 0 := (tall _ (mem_subnodes_self _)).ne'
    refine .inner (knows _ (mem_subnodes_self _)) (by simp [NodeJson.isLeaf, nodeToNodeJson, inner])
      rfl rfl (ihLeft (fun n below => tall n ?_) fun n below => knows n ?_)
      (ihRight (fun n below => tall n ?_) fun n below => knows n ?_)
    all_goals simp [subnodes, below]

end Follower

end Exchain.Iavl
