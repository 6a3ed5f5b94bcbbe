import Exchain.Iavl.NodeContents

namespace Exchain.Iavl.Node

open List Option

variable {κ ν : Type}

def subnodes : Node κ ν → List (Node κ ν)
  | .leaf key value version saved => [.leaf key value version saved]
  | .inner key height size version saved left right =>
    .inner key height size version saved left right :: (left.subnodes ++ right.subnodes)

theorem mem_subnodes_self (node : Node κ ν) : node ∈ node.subnodes := by
  cases node <;> simp [subnodes]

theorem subnodes_trans {a b c : Node κ ν} (first : a ∈ b.subnodes) (second : b ∈ c.subnodes) :
    a ∈ c.subnodes := by
  induction c with
  | leaf =>
    obtain rfl := mem_singleton.mp second
    exact first
  | inner _ _ _ _ _ _ _ ihLeft ihRight =>
    rw [subnodes, mem_cons, mem_append] at second ⊢
    rcases second with rfl | second | second
    · rw [subnodes, mem_cons, mem_append] at first
      exact first
    · exact .inr (.inl (ihLeft second))
    · exact .inr (.inr (ihRight second))

/-- How many nodes of a tree a test counts. -/
def tally (test : Node κ ν → Bool) (node : Node κ ν) : Nat := node.subnodes.countP test

section

variable {test : Node κ ν → Bool}

@[simp] theorem tally_leaf (key : κ) (value : ν) (version : Nat) (saved : Bool) :
    tally test (.leaf key value version saved) = (test (.leaf key value version saved)).toNat := by
  rw [tally, subnodes, countP_singleton]
  cases test _ <;> rfl

@[simp] theorem tally_inner (key : κ) (height size version : Nat) (saved : Bool)
    (left right : Node κ ν) : tally test (.inner key height size version saved left right) =
      tally test left + tally test right +
        (test (.inner key height size version saved left right)).toNat := by
  rw [tally, subnodes, List.countP_cons, countP_append]
  cases test _ <;> rfl

theorem countP_cons (node : Node κ ν) (orphans : List (Node κ ν)) :
    (node :: orphans).countP test = orphans.countP test + (test node).toNat := by
  rw [List.countP_cons]
  cases test node <;> rfl

def CountsSaved (test : Node κ ν → Bool) : Prop := ∀ node, node.saved = false → test node = false

variable (counts : CountsSaved test)
include counts

theorem tally_new (key : κ) (value : ν) (version : Nat) : tally test (new key value version) = 0 := by
  simp [new, counts (.leaf key value version false) rfl]

theorem tally_unsaved (key : κ) (height size version : Nat) (left right : Node κ ν) :
    tally test (.inner key height size version false left right) =
      tally test left + tally test right := by
  simp [counts (.inner key height size version false left right) rfl]

theorem tally_join (key : κ) (version : Nat) (left right : Node κ ν) :
    tally test (join key version left right) = tally test left + tally test right :=
  tally_unsaved counts ..

/-- A rotation at a node that is not saved takes the child off which it turns out
of the tree. -/
theorem tally_rotateRight (version : Nat) (key : κ) (height size nodeVersion : Nat)
    (left right : Node κ ν) :
    let (newNode, orphan) := rotateRight version (.inner key height size nodeVersion false left right)
    tally test newNode + (test orphan).toNat = tally test left + tally test right := by
  cases left with
  | leaf =>
    simp [rotateRight, counts (.inner key height size nodeVersion false _ right) rfl]
  | inner =>
    simp only [rotateRight, tally_join counts, tally_inner]
    omega

theorem tally_rotateLeft (version : Nat) (key : κ) (height size nodeVersion : Nat)
    (left right : Node κ ν) :
    let (newNode, orphan) := rotateLeft version (.inner key height size nodeVersion false left right)
    tally test newNode + (test orphan).toNat = tally test left + tally test right := by
  cases right with
  | leaf =>
    simp [rotateLeft, counts (.inner key height size nodeVersion false left _) rfl]
  | inner =>
    simp only [rotateLeft, tally_join counts, tally_inner]
    omega

omit counts in
theorem exists_inner_of_calcBalance_neg {node : Node κ ν} (leans : node.calcBalance < 0) :
    ∃ key height size version saved left rightKey rightHeight rightSize rightVersion rightSaved a b,
      node = .inner key height size version saved left
        (.inner rightKey rightHeight rightSize rightVersion rightSaved a b) := by
  cases node with
  | leaf => simp [calcBalance] at leans
  | inner _ _ _ _ _ _ right =>
    cases right with
    | leaf =>
      simp only [calcBalance, Node.height] at leans
      omega
    | inner =>
      exact ⟨_, _, _, _, _, _, _, _, _, _, _, _, _, rfl⟩

omit counts in
theorem exists_inner_of_calcBalance_pos {node : Node κ ν} (leans : 0 < node.calcBalance) :
    ∃ key height size version saved leftKey leftHeight leftSize leftVersion leftSaved a b right,
      node = .inner key height size version saved
        (.inner leftKey leftHeight leftSize leftVersion leftSaved a b) right := by
  cases node with
  | leaf => simp [calcBalance] at leans
  | inner _ _ _ _ _ left =>
    cases left with
    | leaf =>
      simp only [calcBalance, Node.height] at leans
      omega
    | inner =>
      exact ⟨_, _, _, _, _, _, _, _, _, _, _, _, _, rfl⟩

theorem tally_balance (version : Nat) (key : κ) (height size nodeVersion : Nat)
    (left right : Node κ ν) (orphans : List (Node κ ν)) :
    tally test (balance version (.inner key height size nodeVersion false left right) orphans).1 +
        (balance version (.inner key height size nodeVersion false left right) orphans).2.countP test =
      tally test left + tally test right + orphans.countP test := by
  have turnRight := tally_rotateRight counts version key height size nodeVersion left right
  have turnLeft := tally_rotateLeft counts version key height size nodeVersion left right
  unfold balance
  dsimp only
  split
  · split
    · simp only [countP_append, countP_cons, countP_nil]
      omega
    rename_i leans
    obtain ⟨lk, _, _, _, _, a, rk, _, _, _, _, b, c, rfl⟩ :=
      exists_inner_of_calcBalance_neg (not_le.mp leans)
    have again := tally_rotateRight counts version key height size nodeVersion
      (join rk version (join lk version a b) c) right
    simp only [tally_join counts] at again
    simp only [rotateLeft, countP_append, countP_cons, countP_nil, tally_inner]
    omega
  · split
    · split
      · simp only [countP_append, countP_cons, countP_nil]
        omega
      rename_i leans
      obtain ⟨rk, _, _, _, _, lk, _, _, _, _, a, b, c, rfl⟩ :=
        exists_inner_of_calcBalance_pos (not_le.mp leans)
      have again := tally_rotateLeft counts version key height size nodeVersion left
        (join lk version a (join rk version b c))
      simp only [tally_join counts] at again
      simp only [rotateRight, countP_append, countP_cons, countP_nil, tally_inner]
      omega
    · simp only [tally_unsaved counts]

variable [LinearOrder κ]

theorem tally_recursiveSet (version : Nat) (key : κ) (value : ν) (node : Node κ ν)
    (orphans : List (Node κ ν)) : tally test (recursiveSet version key value node orphans).1 +
        (recursiveSet version key value node orphans).2.2.countP test =
      tally test node + orphans.countP test := by
  induction node generalizing orphans with
  | leaf =>
    unfold recursiveSet
    split
    · simp only [tally_unsaved counts, tally_new counts]
      omega
    split
    · simp only [tally_unsaved counts, tally_new counts]
      omega
    · simp only [tally_new counts, countP_append, countP_cons, countP_nil, tally_leaf]
      omega
  | inner nodeKey height size nodeVersion saved left right ihLeft ihRight =>
    have afterLeft := ihLeft (orphans ++ [.inner nodeKey height size nodeVersion saved left right])
    have afterRight := ihRight (orphans ++ [.inner nodeKey height size nodeVersion saved left right])
    rw [countP_append, countP_cons, countP_nil] at afterLeft afterRight
    rw [recursiveSet]
    dsimp only
    split
    · generalize recursiveSet version key value left _ = result at afterLeft ⊢
      obtain ⟨_, _⟩ := result
      dsimp only at afterLeft ⊢
      split
      · dsimp only
        rw [tally_unsaved counts, tally_inner]
        omega
      · dsimp only
        rw [join, tally_balance counts, tally_inner]
        omega
    generalize recursiveSet version key value right _ = result at afterRight ⊢
    obtain ⟨_, _⟩ := result
    dsimp only at afterRight ⊢
    split
    · dsimp only
      rw [tally_unsaved counts, tally_inner]
      omega
    · dsimp only
      rw [join, tally_balance counts, tally_inner]
      omega

theorem tally_recursiveRemove (version : Nat) (key : κ) (node : Node κ ν) :
    ((recursiveRemove version key node []).newSelf.elim 0 (tally test)) +
        (recursiveRemove version key node []).orphans.countP test = tally test node := by
  induction node with
  | leaf =>
    unfold recursiveRemove
    split
    · simp only [elim_none, nil_append, countP_cons, countP_nil, tally_leaf]
      omega
    · simp
  | inner _ _ _ _ _ _ _ ihLeft ihRight =>
    unfold recursiveRemove
    dsimp only
    -- the two sides are alike, each with its own hypothesis
    split <;>
    · split
      · rename_i missed
        simp [isEmpty_iff.mp missed]
      split
      · rename_i gone
        simp only [gone, elim_none, elim_some, countP_append, countP_cons, countP_nil,
          tally_inner] at ihLeft ihRight ⊢
        omega
      · rename_i newSide kept
        simp only [kept, elim_some] at ihLeft ihRight
        simp only [elim_some, join, tally_balance counts, countP_append, countP_cons, countP_nil,
          tally_inner]
        omega

end

/-- What the nodes of a saved tree have in common: their children are among them; inner ones have a
height. -/
structure Base (base : Node κ ν → Prop) : Prop where
  left : ∀ {key height size version saved left right},
    base (.inner key height size version saved left right) → base left
  right : ∀ {key height size version saved left right},
    base (.inner key height size version saved left right) → base right
  tall : ∀ {key height size version saved left right},
    base (.inner key height size version saved left right) → 0 < height

/-- A tree that was built in one version over nodes that were there before. -/
def Built (version : Nat) (base : Node κ ν → Prop) : Node κ ν → Prop
  | .leaf key value leafVersion saved =>
    base (.leaf key value leafVersion saved) ∨ (leafVersion = version ∧ saved = false)
  | .inner key height size innerVersion saved left right =>
    base (.inner key height size innerVersion saved left right) ∨
      (0 < height ∧ innerVersion = version ∧ saved = false ∧ left.Built version base ∧
        right.Built version base)

variable {version : Nat} {base : Node κ ν → Prop}

theorem built_of_base {node : Node κ ν} (inside : base node) : node.Built version base := by
  cases node <;> exact .inl inside

theorem built_new (key : κ) (value : ν) : (new key value version).Built version base :=
  .inr ⟨rfl, rfl⟩

section

variable {left right : Node κ ν} (builtLeft : left.Built version base)
  (builtRight : right.Built version base) (key : κ)

include builtLeft builtRight

theorem built_unsaved {height : Nat} (size : Nat) (tall : 0 < height) : Built version base (.inner key height size version false left right) :=
  .inr ⟨tall, rfl, rfl, builtLeft, builtRight⟩

theorem built_join : (join key version left right).Built version base :=
  built_unsaved builtLeft builtRight key _ (Nat.succ_pos _)

end

variable (holds : Base base)
include holds

theorem Built.children {key : κ} {height size innerVersion : Nat} {saved : Bool}
    {left right : Node κ ν}
    (built : Built version base (.inner key height size innerVersion saved left right)) :
    0 < height ∧ left.Built version base ∧ right.Built version base := by
  rcases built with inside | ⟨tall, -, -, builtLeft, builtRight⟩
  · exact ⟨holds.tall inside, built_of_base (holds.left inside), built_of_base (holds.right inside)⟩
  · exact ⟨tall, builtLeft, builtRight⟩

theorem built_rotateRight {node : Node κ ν} (built : node.Built version base) :
    (rotateRight version node).1.Built version base := by
  cases node with
  | leaf => exact built
  | inner _ _ _ _ _ left =>
    obtain ⟨-, builtLeft, builtRight⟩ := built.children holds
    cases left with
    | leaf => exact built
    | inner =>
      obtain ⟨-, builtA, builtB⟩ := builtLeft.children holds
      exact built_join builtA (built_join builtB builtRight _) _

theorem built_rotateLeft {node : Node κ ν} (built : node.Built version base) :
    (rotateLeft version node).1.Built version base := by
  cases node with
  | leaf => exact built
  | inner _ _ _ _ _ _ right =>
    obtain ⟨-, builtLeft, builtRight⟩ := built.children holds
    cases right with
    | leaf => exact built
    | inner =>
      obtain ⟨-, builtA, builtB⟩ := builtRight.children holds
      exact built_join (built_join builtLeft builtA _) builtB _

theorem built_balance {left right : Node κ ν} (builtLeft : left.Built version base)
    (builtRight : right.Built version base) (key : κ) (orphans : List (Node κ ν)) :
    (balance version (join key version left right) orphans).1.Built version base := by
  have built := built_join builtLeft builtRight key
  have tall : 0 < max left.height right.height + 1 := Nat.succ_pos _
  unfold join at built ⊢
  unfold balance
  dsimp only
  split
  · split
    · exact built_rotateRight holds built
    · exact built_rotateRight holds
        (built_unsaved (built_rotateLeft holds builtLeft) builtRight key _ tall)
  split
  · split
    · exact built_rotateLeft holds built
    · exact built_rotateLeft holds
        (built_unsaved builtLeft (built_rotateRight holds builtRight) key _ tall)
  · exact built

variable [LinearOrder κ]
  (key : κ) {node : Node κ ν} (orphans : List (Node κ ν)) (built : node.Built version base)

include built

theorem built_recursiveSet (value : ν) :
    (recursiveSet version key value node orphans).1.Built version base := by
  induction node generalizing orphans with
  | leaf =>
    unfold recursiveSet
    split
    · exact built_unsaved (built_new key value) built _ _ Nat.one_pos
    split
    · exact built_unsaved built (built_new key value) _ _ Nat.one_pos
    · exact built_new key value
  | inner nodeKey height size nodeVersion saved left right ihLeft ihRight =>
    obtain ⟨tall, builtLeft, builtRight⟩ := built.children holds
    rw [recursiveSet]
    dsimp only
    split
    · have newLeft := ihLeft (orphans ++ [.inner nodeKey height size nodeVersion saved left right])
        builtLeft
      split
      · exact built_unsaved newLeft builtRight _ _ tall
      · exact built_balance holds newLeft builtRight _ _
    · have newRight := ihRight
        (orphans ++ [.inner nodeKey height size nodeVersion saved left right]) builtRight
      split
      · exact built_unsaved builtLeft newRight _ _ tall
      · exact built_balance holds builtLeft newRight _ _

theorem built_recursiveRemove :
    ∀ node', (recursiveRemove version key node orphans).newSelf = some node' →
      node'.Built version base := by
  induction node with
  | leaf =>
    unfold recursiveRemove
    split
    · simp
    · rintro _ ⟨⟩
      exact built
  | inner _ _ _ _ _ _ _ ihLeft ihRight =>
    obtain ⟨-, builtLeft, builtRight⟩ := built.children holds
    rw [recursiveRemove]
    dsimp only
    split
    · split
      · rintro _ ⟨⟩
        exact built
      split
      · rintro _ ⟨⟩
        exact builtRight
      · rename_i newLeft kept
        rintro _ ⟨⟩
        exact built_balance holds (ihLeft builtLeft newLeft kept) builtRight _ _
    split
    · rintro _ ⟨⟩
      exact built
    split
    · rintro _ ⟨⟩
      exact builtLeft
    · rename_i newRight kept
      rintro _ ⟨⟩
      exact built_balance holds builtLeft (ihRight builtRight newRight kept) _ _

end Exchain.Iavl.Node
