import Mathlib.Algebra.Order.Ring.Nat
import Exchain.Iavl.Node

namespace Exchain.Iavl

open SortedPairs List

variable {κ ν : Type}

namespace Node

def contents : Node κ ν → List (κ × ν)
  | .leaf key value _ _ => [(key, value)]
  | .inner _ _ _ _ _ left right => left.contents ++ right.contents

def minKey : Node κ ν → κ
  | .leaf key .. => key
  | .inner _ _ _ _ _ left _ => left.minKey

/-- Every inner key is the least key of its right subtree. -/
def Keyed : Node κ ν → Prop
  | .leaf .. => True
  | .inner key _ _ _ _ left right => key = right.minKey ∧ left.Keyed ∧ right.Keyed

@[simp] theorem contents_new (key : κ) (value : ν) (version : Nat) :
    (new key value version).contents = [(key, value)] := rfl

@[simp] theorem contents_join (key : κ) (version : Nat) (left right : Node κ ν) :
    (join key version left right).contents = left.contents ++ right.contents := rfl

theorem exists_contents_eq_cons (node : Node κ ν) :
    ∃ value rest, node.contents = (node.minKey, value) :: rest := by
  induction node with
  | leaf _ value => exact ⟨value, [], rfl⟩
  | inner _ _ _ _ _ _ right ihLeft =>
    obtain ⟨value, rest, eq⟩ := ihLeft
    exact ⟨value, rest ++ right.contents, by simp [contents, minKey, eq]⟩

/-- A node that holds the same and is keyed if the other one is. -/
structure Reshaped (node node' : Node κ ν) : Prop where
  contents : node'.contents = node.contents
  minKey : node'.minKey = node.minKey
  keyed : node.Keyed → node'.Keyed

theorem Reshaped.refl (node : Node κ ν) : Reshaped node node := ⟨rfl, rfl, id⟩

theorem Reshaped.trans {a b c : Node κ ν} (first : Reshaped a b) (second : Reshaped b c) :
    Reshaped a c :=
  ⟨second.contents.trans first.contents, second.minKey.trans first.minKey,
    fun keyed => second.keyed (first.keyed keyed)⟩

theorem reshaped_rotateRight (version : Nat) (node : Node κ ν) :
    Reshaped node (rotateRight version node).1 := by
  unfold rotateRight
  split
  · refine ⟨?_, rfl, ?_⟩
    · simp [Node.contents]
    · rintro ⟨keyRight, ⟨keyB, keyedA, keyedB⟩, keyedRight⟩
      exact ⟨keyB, keyedA, keyRight, keyedB, keyedRight⟩
  · exact .refl _

theorem reshaped_rotateLeft (version : Nat) (node : Node κ ν) :
    Reshaped node (rotateLeft version node).1 := by
  unfold rotateLeft
  split
  · refine ⟨?_, rfl, ?_⟩
    · simp [Node.contents]
    · rintro ⟨keyRight, keyedLeft, keyB, keyedA, keyedB⟩
      exact ⟨keyB, ⟨keyRight, keyedLeft, keyedA⟩, keyedB⟩
  · exact .refl _

theorem Reshaped.child {key : κ} {height size version : Nat} {saved : Bool}
    {left left' right right' : Node κ ν} (lower : Reshaped left left')
    (higher : Reshaped right right') : Reshaped (.inner key height size version saved left right)
      (.inner key height size version saved left' right') := by
  refine ⟨?_, lower.minKey, ?_⟩
  · simp [Node.contents, lower.contents, higher.contents]
  · rintro ⟨least, keyedLeft, keyedRight⟩
    exact ⟨least.trans higher.minKey.symm, lower.keyed keyedLeft, higher.keyed keyedRight⟩

theorem reshaped_balance (version : Nat) (node : Node κ ν) (orphans : List (Node κ ν)) :
    Reshaped node (balance version node orphans).1 := by
  cases node with
  | leaf => exact .refl _
  | inner _ _ _ _ _ left right =>
    simp only [balance]
    split
    · split
      · exact reshaped_rotateRight version _
      · exact ((reshaped_rotateLeft version left).child (.refl right)).trans
          (reshaped_rotateRight version _)
    split
    · split
      · exact reshaped_rotateLeft version _
      · exact ((Reshaped.refl left).child (reshaped_rotateRight version right)).trans
          (reshaped_rotateLeft version _)
    · exact .refl _

theorem balance_orphans_ne_nil (version : Nat) (node : Node κ ν) {orphans : List (Node κ ν)}
    (some_orphan : orphans ≠ []) : (balance version node orphans).2 ≠ [] := by
  cases node with
  | leaf => exact some_orphan
  | inner =>
    simp only [balance]
    split
    · split <;> simp
    split
    · split <;> simp
    · exact some_orphan

theorem reshaped_updateBranch (node : Node κ ν) : Reshaped node node.updateBranch := by
  induction node with
  | leaf => exact ⟨rfl, rfl, id⟩
  | inner _ _ _ _ _ _ _ ihLeft ihRight =>
    rw [updateBranch]
    split
    · exact .refl _
    refine ⟨?_, ihLeft.minKey, ?_⟩
    · simp [Node.contents, ihLeft.contents, ihRight.contents]
    · rintro ⟨least, keyedLeft, keyedRight⟩
      exact ⟨least.trans ihRight.minKey.symm, ihLeft.keyed keyedLeft, ihRight.keyed keyedRight⟩

variable [LinearOrder κ]

/-- A search tree: the keys increase from left to right, and the inner keys
separate them. -/
structure Sorted (node : Node κ ν) : Prop where
  ordered : Ordered (· < ·) node.contents
  keyed : node.Keyed

theorem sorted_leaf (key : κ) (value : ν) (version : Nat) (saved : Bool) :
    Sorted (.leaf key value version saved) := ⟨by simp [contents], trivial⟩

variable {node node' : Node κ ν}

theorem Reshaped.sorted (same : Reshaped node node')
    (sorted : node.Sorted) : node'.Sorted := ⟨same.contents ▸ sorted.ordered, same.keyed sorted.keyed⟩

section

variable {key : κ} {height size version : Nat} {saved : Bool} {left right : Node κ ν}

section

variable (sorted : Sorted (.inner key height size version saved left right))

include sorted

theorem Sorted.lower : left.Sorted := ⟨(pairwise_append.mp sorted.ordered).1, sorted.keyed.2.1⟩

theorem Sorted.higher : right.Sorted := ⟨(pairwise_append.mp sorted.ordered).2.1, sorted.keyed.2.2⟩

end

theorem Sorted.minKey_le (sorted : node.Sorted) :
    ∀ p ∈ node.contents, node.minKey ≤ p.1 := by
  obtain ⟨_, _, eq⟩ := node.exists_contents_eq_cons
  have ordered := sorted.ordered
  rw [eq] at ordered ⊢
  exact forall_mem_cons.mpr ⟨le_rfl, fun p inside => ((ordered_cons.mp ordered).1 p inside).le⟩

variable (sorted : Sorted (.inner key height size version saved left right))

include sorted

theorem Sorted.below : ∀ p ∈ left.contents, p.1 < key := by
  intro p inside
  obtain ⟨value, _, eq⟩ := right.exists_contents_eq_cons
  have least : (right.minKey, value) ∈ right.contents := by simp [eq]
  rw [sorted.keyed.1]
  exact (pairwise_append.mp sorted.ordered).2.2 p inside _ least

theorem Sorted.above : ∀ p ∈ right.contents, key ≤ p.1 := by
  have least := sorted.keyed.1
  exact least ▸ sorted.higher.minKey_le

end

theorem get_eq_lookup (sorted : node.Sorted) (key : κ) :
    (node.get key).2 = node.contents.lookup key := by
  induction node with
  | leaf nodeKey =>
    rcases lt_trichotomy nodeKey key with less | rfl | more
    · have apart : (key == nodeKey) = false := by simpa using less.ne'
      simp [get, contents, less, lookup_cons, apart]
    · simp [get, contents]
    · have apart : (key == nodeKey) = false := by simpa using more.ne
      simp [get, contents, more, more.not_gt, lookup_cons, apart]
  | inner _ _ _ _ _ left right ihLeft ihRight =>
    rw [get, contents, lookup_append]
    split
    · rename_i less
      have absent : right.contents.lookup key = none :=
        lookup_eq_none_of fun p inside => (less.trans_le (sorted.above p inside)).ne'
      simp [ihLeft sorted.lower, absent]
    · rename_i notLess
      have absent : left.contents.lookup key = none :=
        lookup_eq_none_of fun p inside => ((sorted.below p inside).trans_le (not_lt.mp notLess)).ne
      simp [ihRight sorted.higher, absent]

/-- What a node with one more key mapped holds. -/
structure Updated (key : κ) (value : ν) (node node' : Node κ ν) : Prop where
  contents : node'.contents = put key value node.contents
  minKey : node'.minKey = min key node.minKey
  keyed : node'.Keyed

theorem Updated.reshaped {key : κ} {value : ν} {node'' : Node κ ν}
    (updated : Updated key value node node') (same : Reshaped node' node'') :
    Updated key value node node'' :=
  ⟨same.contents.trans updated.contents, same.minKey.trans updated.minKey, same.keyed updated.keyed⟩

section

variable {key nodeKey : κ} {value : ν} {height size version : Nat} {saved : Bool}
  {left right : Node κ ν}

variable (sorted : Sorted (.inner nodeKey height size version saved left right))
include sorted

theorem Sorted.updated_left {newLeft : Node κ ν} (less : key < nodeKey)
    (updated : Updated key value left newLeft) (height' size' version' : Nat) (saved' : Bool) :
    Updated key value (.inner nodeKey height size version saved left right)
      (.inner nodeKey height' size' version' saved' newLeft right) := by
  refine ⟨?_, updated.minKey, sorted.keyed.1, updated.keyed, sorted.keyed.2.2⟩
  rw [Node.contents, updated.contents]
  exact (put_append_left value fun p inside => less.trans_le (sorted.above p inside)).symm

theorem Sorted.updated_right {newRight : Node κ ν} (notLess : ¬key < nodeKey)
    (updated : Updated key value right newRight) (height' size' version' : Nat) (saved' : Bool) :
    Updated key value (.inner nodeKey height size version saved left right)
      (.inner nodeKey height' size' version' saved' left newRight) := by
  have least := sorted.keyed.1
  have reaches : nodeKey ≤ key := not_lt.mp notLess
  have below : ∀ p ∈ left.contents, p.1 < key := fun p inside =>
    (sorted.below p inside).trans_le reaches
  refine ⟨?_, ?_, ?_, sorted.keyed.2.1, updated.keyed⟩
  · rw [Node.contents, updated.contents]
    exact (put_append_right value below).symm
  · obtain ⟨first, _, eq⟩ := left.exists_contents_eq_cons
    have lower := below (left.minKey, first) (by simp [eq])
    exact (min_eq_right lower.le).symm
  · rw [updated.minKey, ← least, min_eq_right reaches]

end

theorem updated_recursiveSet (version : Nat) (key : κ) (value : ν) (node : Node κ ν)
    (orphans : List (Node κ ν)) (sorted : node.Sorted) :
    Updated key value node (recursiveSet version key value node orphans).1 := by
  induction node generalizing orphans with
  | leaf nodeKey =>
    rw [recursiveSet]
    rcases lt_trichotomy key nodeKey with less | rfl | more
    · rw [if_pos less]
      refine ⟨?_, (min_eq_left less.le).symm, rfl, trivial, trivial⟩
      simp [Node.contents, put, less, less.not_gt]
    · rw [if_neg (lt_irrefl key), if_neg (lt_irrefl key)]
      refine ⟨?_, (min_self key).symm, trivial⟩
      simp [Node.contents, put]
    · rw [if_neg more.not_gt, if_pos more]
      refine ⟨?_, (min_eq_right more.le).symm, rfl, trivial, trivial⟩
      simp [Node.contents, put, more, more.not_gt]
  | inner nodeKey height size nodeVersion saved left right ihLeft ihRight =>
    rw [recursiveSet]
    split
    · rename_i less
      have updated := ihLeft (orphans ++ [.inner nodeKey height size nodeVersion saved left right])
        sorted.lower
      dsimp only
      split
      · exact sorted.updated_left less updated ..
      · exact (sorted.updated_left less updated ..).reshaped (reshaped_balance ..)
    · rename_i notLess
      have updated := ihRight (orphans ++ [.inner nodeKey height size nodeVersion saved left right])
        sorted.higher
      dsimp only
      split
      · exact sorted.updated_right notLess updated ..
      · exact (sorted.updated_right notLess updated ..).reshaped (reshaped_balance ..)

theorem Updated.sorted {key : κ} {value : ν}
    (updated : Updated key value node node') (sorted : node.Sorted) : node'.Sorted :=
  ⟨updated.contents ▸ ordered_put sorted.ordered key value, updated.keyed⟩

structure Removed (key : κ) (node : Node κ ν) (removal : Removal κ ν) : Prop where
  found : removal.orphans ≠ []
  value : removal.value = node.contents.lookup key
  present : removal.value ≠ none
  nothing : removal.newSelf = none → cut key node.contents = []
  contents : ∀ node', removal.newSelf = some node' → node'.contents = cut key node.contents
  minKey : ∀ node', removal.newSelf = some node' → node'.minKey = removal.newKey.getD node.minKey
  keyed : ∀ node', removal.newSelf = some node' → node'.Keyed

/-- The key was not there: nothing changes and nothing is orphaned. -/
structure Missed (key : κ) (node : Node κ ν) (removal : Removal κ ν) : Prop where
  absent : ∀ p ∈ node.contents, p.1 ≠ key
  eq : removal = ⟨some node, none, none, []⟩

theorem recursiveRemove_spec (version : Nat) (key : κ) (node : Node κ ν) (sorted : node.Sorted) :
    Removed key node (recursiveRemove version key node []) ∨
      Missed key node (recursiveRemove version key node []) := by
  induction node with
  | leaf nodeKey =>
    rw [recursiveRemove]
    split
    · rename_i same
      subst same
      refine .inl ⟨by simp, by simp [Node.contents], by simp, fun _ => by simp [Node.contents, cut],
        ?_, ?_, ?_⟩ <;> simp
    · rename_i apart
      exact .inr ⟨by simpa [Node.contents] using fun same : nodeKey = key => apart same.symm, rfl⟩
  | inner nodeKey height size nodeVersion saved left right ihLeft ihRight =>
    rw [recursiveRemove]
    dsimp only
    set whole := inner nodeKey height size nodeVersion saved left right with wholeIs
    split
    · rename_i less
      have clear := fun p inside => (less.trans_le (sorted.above p inside)).ne'
      generalize recursiveRemove version key left [] = removal at ihLeft ⊢
      rcases ihLeft sorted.lower with removed | missed
      · refine .inl ?_
        rw [if_neg (by simpa using removed.found)]
        have cutNode : cut key whole.contents = cut key left.contents ++ right.contents := by
          rw [wholeIs, Node.contents, cut_append, cut_eq_self clear]
        have valueNode : removal.value = whole.contents.lookup key := by
          rw [removed.value, wholeIs, Node.contents, lookup_append, lookup_eq_none_of clear]
          simp
        cases self : removal.newSelf with
        | none =>
          refine ⟨by simp, valueNode, removed.present, by simp, ?_, ?_, ?_⟩
          · rintro node' ⟨⟩
            rw [cutNode, removed.nothing self]
            rfl
          · rintro node' ⟨⟩
            exact sorted.keyed.1.symm
          · rintro node' ⟨⟩
            exact sorted.keyed.2.2
        | some newLeft =>
          have same := reshaped_balance version (join nodeKey version newLeft right)
            (removal.orphans ++ [whole])
          refine ⟨?_, valueNode, removed.present, by simp, ?_, ?_, ?_⟩
          · exact balance_orphans_ne_nil version _ (by simp)
          · rintro node' ⟨⟩
            rw [same.contents, contents_join, removed.contents newLeft self, cutNode]
          · rintro node' ⟨⟩
            exact same.minKey.trans (removed.minKey newLeft self)
          · rintro node' ⟨⟩
            exact same.keyed ⟨sorted.keyed.1, removed.keyed newLeft self, sorted.keyed.2.2⟩
      · refine .inr ⟨?_, by simp [missed.eq]⟩
        intro p inside
        rcases mem_append.mp inside with inside | inside
        · exact missed.absent p inside
        · exact clear p inside
    · rename_i notLess
      have clear := fun p inside => ((sorted.below p inside).trans_le (not_lt.mp notLess)).ne
      generalize recursiveRemove version key right [] = removal at ihRight ⊢
      rcases ihRight sorted.higher with removed | missed
      · refine .inl ?_
        rw [if_neg (by simpa using removed.found)]
        have cutNode : cut key whole.contents = left.contents ++ cut key right.contents := by
          rw [wholeIs, Node.contents, cut_append, cut_eq_self clear]
        have valueNode : removal.value = whole.contents.lookup key := by
          rw [removed.value, wholeIs, Node.contents, lookup_append, lookup_eq_none_of clear]
          simp
        cases self : removal.newSelf with
        | none =>
          refine ⟨by simp, valueNode, removed.present, by simp, ?_, ?_, ?_⟩
          · rintro node' ⟨⟩
            rw [cutNode, removed.nothing self, append_nil]
          · rintro node' ⟨⟩
            rfl
          · rintro node' ⟨⟩
            exact sorted.keyed.2.1
        | some newRight =>
          have same := reshaped_balance version
            (join (removal.newKey.getD nodeKey) version left newRight) (removal.orphans ++ [whole])
          refine ⟨?_, valueNode, removed.present, by simp, ?_, ?_, ?_⟩
          · exact balance_orphans_ne_nil version _ (by simp)
          · rintro node' ⟨⟩
            rw [same.contents, contents_join, removed.contents newRight self, cutNode]
          · rintro node' ⟨⟩
            exact same.minKey
          · rintro node' ⟨⟩
            refine same.keyed ⟨?_, sorted.keyed.2.1, removed.keyed newRight self⟩
            rw [removed.minKey newRight self, sorted.keyed.1]
      · refine .inr ⟨?_, by simp [missed.eq]⟩
        intro p inside
        rcases mem_append.mp inside with inside | inside
        · exact clear p inside
        · exact missed.absent p inside

theorem Removed.sorted {key : κ} {removal : Removal κ ν}
    (removed : Removed key node removal) (sorted : node.Sorted)
    (self : removal.newSelf = some node') : node'.Sorted :=
  ⟨removed.contents node' self ▸ sorted.ordered.filter _, removed.keyed node' self⟩

end Node

variable [LinearOrder κ]

def inRange (start stop : Option κ) (ascending : Bool) (pairs : List (κ × ν)) : List (κ × ν) :=
  let inside := pairs.filter (fun p => startOrAfter start p.1 && beforeEnd stop p.1)
  if ascending then inside else inside.reverse

theorem inRange_append (start stop : Option κ) (ascending : Bool) (l r : List (κ × ν)) :
    inRange start stop ascending (l ++ r) =
      if ascending then inRange start stop ascending l ++ inRange start stop ascending r
      else inRange start stop ascending r ++ inRange start stop ascending l := by
  cases ascending <;> simp [inRange, filter_append]

variable {ascending : Bool} {l : List (κ × ν)} {start stop : Option κ}

theorem inRange_eq_nil (outside : ∀ p ∈ l, (startOrAfter start p.1 && beforeEnd stop p.1) = false) :
    inRange start stop ascending l = [] := by
  have none_left : l.filter (fun p => startOrAfter start p.1 && beforeEnd stop p.1) = [] :=
    filter_eq_nil_iff.mpr fun p inside => by simp [outside p inside]
  cases ascending <;> simp [inRange, none_left]

/-- A subtree left of a key that the range starts after has nothing to show. -/
theorem inRange_below {key : κ}
    (below : ∀ p ∈ l, p.1 < key) (skipped : afterStart start key = false) :
    inRange start stop ascending l = [] := by
  refine inRange_eq_nil fun p inside => ?_
  cases start with
  | none => simp [afterStart] at skipped
  | some low =>
    have reached : key ≤ low := by simpa [afterStart] using skipped
    simp [startOrAfter, (below p inside).trans_le reached]

theorem inRange_above {key : κ}
    (above : ∀ p ∈ l, key ≤ p.1) (skipped : beforeEnd stop key = false) :
    inRange start stop ascending l = [] := by
  refine inRange_eq_nil fun p inside => ?_
  cases stop with
  | none => simp [beforeEnd] at skipped
  | some high =>
    have reached : high ≤ key := by simpa [beforeEnd] using skipped
    simp [beforeEnd, reached.trans (above p inside)]

/-- Expanding an inner node replaces what it shows by what its children show. -/
theorem inRange_inner {key : κ} {height size version : Nat} {saved : Bool} {left right : Node κ ν}
    (sorted : Node.Sorted (.inner key height size version saved left right)) :
    inRange start stop ascending (Node.inner key height size version saved left right).contents =
      (let lower := if afterStart start key then [left] else []
       let higher := if beforeEnd stop key then [right] else []
       if ascending then lower ++ higher else higher ++ lower).flatMap
        (fun node => inRange start stop ascending node.contents) := by
  have low : afterStart start key = false → inRange start stop ascending left.contents = [] :=
    inRange_below sorted.below
  have high : beforeEnd stop key = false → inRange start stop ascending right.contents = [] :=
    inRange_above sorted.above
  rw [Node.contents, inRange_append]
  cases after : afterStart start key <;> cases before : beforeEnd stop key <;>
    cases ascending <;> simp [after, before, low, high]

theorem iteratorRead_eq (start stop : Option κ) (ascending : Bool) (calls : Nat)
    (delayed : List (Node κ ν)) (sorted : ∀ node ∈ delayed, node.Sorted)
    (enough : (delayed.map Node.nodeSize).sum ≤ calls) :
    iteratorRead start stop ascending calls delayed =
      delayed.flatMap (fun node => inRange start stop ascending node.contents) := by
  induction calls generalizing delayed with
  | zero =>
    cases delayed with
    | nil => rfl
    | cons node rest =>
      have positive : 0 < node.nodeSize := by cases node <;> simp [Node.nodeSize]
      simp only [map_cons, sum_cons] at enough
      omega
  | succ calls ih =>
    -- leaves outside the range are passed over inside one call
    induction delayed with
    | nil => rfl
    | cons node rest ihRest =>
      have sortedRest := fun n inside => sorted n (mem_cons_of_mem node inside)
      simp only [map_cons, sum_cons] at enough
      cases node with
      | leaf key value version saved =>
        simp only [Node.nodeSize] at enough
        rw [flatMap_cons, iteratorRead, traversalNext]
        cases shown : startOrAfter start key && beforeEnd stop key with
        | true =>
          have single : inRange start stop ascending
              (Node.leaf key value version saved).contents = [(key, value)] := by
            cases ascending <;> simp [inRange, Node.contents, shown]
          simp only [if_pos, single, singleton_append]
          rw [ih rest sortedRest (by omega)]
        | false =>
          have nothing : inRange start stop ascending
              (Node.leaf key value version saved).contents = [] :=
            inRange_eq_nil (by simpa [Node.contents] using shown)
          rw [nothing, ← ihRest sortedRest (by omega)]
          rfl
      | inner key _ _ _ _ left right =>
        have sortedNode := sorted _ mem_cons_self
        rw [flatMap_cons, iteratorRead, inRange_inner sortedNode]
        rw [← flatMap_append]
        refine ih _ ?_ ?_
        · intro n inside
          rcases mem_append.mp inside with inside | inside
          · have child : n = left ∨ n = right := by
              revert inside
              cases afterStart start key <;> cases beforeEnd stop key <;>
                cases ascending <;> simp <;> tauto
            rcases child with rfl | rfl
            · exact sortedNode.lower
            · exact sortedNode.higher
          · exact sortedRest n inside
        · simp only [Node.nodeSize] at enough
          cases afterStart start key <;> cases beforeEnd stop key <;> cases ascending <;>
            simp <;> omega

/-- What a root holds; an empty tree has none. -/
def rootContents : Option (Node κ ν) → List (κ × ν)
  | none => []
  | some node => node.contents

variable {root : Option (Node κ ν)} (sorted : ∀ node, root = some node → node.Sorted)

include sorted

theorem ordered_rootContents : Ordered (· < ·) (rootContents root) := by
  cases root with
  | none => exact ordered_nil
  | some node => exact (sorted node rfl).ordered

theorem newIterator_eq :
    newIterator start stop ascending root = inRange start stop ascending (rootContents root) := by
  cases root with
  | none => cases ascending <;> rfl
  | some node =>
    have read := iteratorRead_eq start stop ascending node.nodeSize [node]
      (by simpa using sorted node rfl) (by simp)
    simpa [newIterator, rootContents] using read

end Exchain.Iavl
