import Exchain.Iavl.Delta
import Exchain.Lib.SortedMap
import Exchain.Lib.Run

/-! The IAVL store with the flat store in front: reads look into a cache, then into a flat database
and only then into the tree. Set and Delete go to both sides. A commit that applies a downloaded
delta gives the tree a new root and tells the flat store nothing. -/

namespace Exchain.FlatKV

open Iavl

variable {κ ν : Type} [LinearOrder κ]

def setRoot (version : Nat) (key : κ) (value : ν) : Option (Node κ ν) → Node κ ν
  | none => .new key value version
  | some node => (node.recursiveSet version key value []).1

def removeRoot (version : Nat) (key : κ) : Option (Node κ ν) → Option (Node κ ν)
  | none => none
  | some node =>
    let removal := node.recursiveRemove version key []
    if removal.orphans.isEmpty then some node else removal.newSelf

section

variable {root : Option (Node κ ν)} (sorted : ∀ node, root = some node → node.Sorted)
  (version : Nat) (key : κ)

include sorted

theorem setRoot_updated (value : ν) : (setRoot version key value root).Sorted ∧
      (setRoot version key value root).contents = SortedPairs.put key value (rootContents root) := by
  cases root with
  | none => exact ⟨Node.sorted_leaf .., rfl⟩
  | some node =>
    have updated := Node.updated_recursiveSet version key value node [] (sorted node rfl)
    exact ⟨updated.sorted (sorted node rfl), updated.contents⟩

theorem removeRoot_removed : (∀ node, removeRoot version key root = some node → node.Sorted) ∧
      rootContents (removeRoot version key root) = SortedPairs.cut key (rootContents root) := by
  cases root with
  | none => exact ⟨nofun, rfl⟩
  | some node =>
    unfold removeRoot
    dsimp only
    cases Node.recursiveRemove_spec version key node (sorted node rfl) with
    | inl gone =>
      rw [if_neg (by simpa using gone.found)]
      refine ⟨fun node' self => gone.sorted (sorted node rfl) self, ?_⟩
      cases self : (node.recursiveRemove version key []).newSelf with
      | none => exact (gone.nothing self).symm
      | some node' => exact gone.contents node' self
    | inr missed =>
      rw [if_pos (by rw [missed.eq]; rfl)]
      exact ⟨sorted, (SortedPairs.cut_eq_self missed.absent).symm⟩

end

/-- The working tree: a root, or none, over which the keys are in order. -/
structure Tree (κ ν : Type) [LinearOrder κ] where
  root : Option (Node κ ν)
  sorted : ∀ node, root = some node → node.Sorted

namespace Tree

def empty : Tree κ ν := ⟨none, nofun⟩

variable (tree : Tree κ ν)

def get (key : κ) : Option ν := match tree.root with
  | none => none
  | some node => (node.get key).2

def has (key : κ) : Bool := (tree.get key).isSome

def set (version : Nat) (key : κ) (value : ν) : Tree κ ν where
  root := some (setRoot version key value tree.root)
  sorted node same := by
    cases same
    exact (setRoot_updated tree.sorted version key value).1

def remove (version : Nat) (key : κ) : Tree κ ν where
  root := removeRoot version key tree.root
  sorted := (removeRoot_removed tree.sorted version key).1

theorem get_eq_lookup (key : κ) : tree.get key = (rootContents tree.root).lookup key := by
  unfold get
  cases found : tree.root with
  | none => rfl
  | some node => exact Node.get_eq_lookup (tree.sorted node found) key

theorem get_set (version : Nat) (key key' : κ) (value : ν) :
    (tree.set version key value).get key' = if key' = key then some value else tree.get key' := by
  rw [get_eq_lookup, get_eq_lookup, ← SortedPairs.lookup_put]
  exact congrArg (List.lookup key') (setRoot_updated tree.sorted version key value).2

theorem get_remove (version : Nat) (key key' : κ) :
    (tree.remove version key).get key' = if key' = key then none else tree.get key' := by
  rw [get_eq_lookup, get_eq_lookup, ← SortedPairs.lookup_cut]
  exact congrArg (List.lookup key') (removeRoot_removed tree.sorted version key).2

end Tree

/-- What the flat store is built on: the key of the latest version in its database, next to the keys
of the store, how it writes a version, and which values are empty byte strings. -/
structure Layout (κ ν : Type) where
  latestVersionKey : κ
  versionBytes : Nat → ν
  isEmpty : ν → Bool

/-- flatkv.Store, enabled. -/
structure Flat (κ ν : Type) [LinearOrder κ] where
  cache : SortedMap κ ν
  db : SortedMap κ ν

namespace Flat

/-- An empty value in the database counts as none. -/
def get (layout : Layout κ ν) (flat : Flat κ ν) (key : κ) : Option ν :=
  match flat.cache.get key with
  | some value => some value
  | none => (flat.db.get key).filter fun value => ! layout.isEmpty value

def has (flat : Flat κ ν) (key : κ) : Bool := (flat.cache.get key).isSome || (flat.db.get key).isSome

def set (flat : Flat κ ν) (key : κ) (value : ν) : Flat κ ν := { flat with cache := flat.cache.set key value }

/-- The database is changed at once, not with the next commit. -/
def delete (flat : Flat κ ν) (key : κ) : Flat κ ν := ⟨flat.cache.delete key, flat.db.delete key⟩

/-- The batch holds the cached values and, last, the version. -/
def commit (layout : Layout κ ν) (version : Nat) (flat : Flat κ ν) : Flat κ ν where
  cache := ∅
  db := (flat.cache.pairs.foldr (fun entry db => db.set entry.1 entry.2) flat.db).set
    layout.latestVersionKey (layout.versionBytes version)

/-- What the flat store holds under a key, read before written. -/
def held (flat : Flat κ ν) (key : κ) : Option ν := (flat.cache.get key).or (flat.db.get key)

end Flat

structure Store (κ ν : Type) [LinearOrder κ] where
  tree : Tree κ ν
  version : Nat
  flat : Flat κ ν

namespace Store

def empty : Store κ ν := ⟨.empty, 0, ⟨∅, ∅⟩⟩

/-- A value that came from the tree goes into the cache. -/
def get (layout : Layout κ ν) (st : Store κ ν) (key : κ) : Option ν × Store κ ν :=
  match st.flat.get layout key with
  | some value => (some value, st)
  | none =>
    match st.tree.get key with
    | some value => (some value, { st with flat := st.flat.set key value })
    | none => (none, st)

def has (st : Store κ ν) (key : κ) : Bool := st.flat.has key || st.tree.has key

def set (st : Store κ ν) (key : κ) (value : ν) : Store κ ν :=
  { st with
    tree := st.tree.set (st.version + 1) key value
    flat := st.flat.set key value }

def delete (st : Store κ ν) (key : κ) : Store κ ν :=
  { st with
    tree := st.tree.remove (st.version + 1) key
    flat := st.flat.delete key }

def committerCommit (layout : Layout κ ν) (st : Store κ ν) : Store κ ν :=
  { st with
    version := st.version + 1
    flat := st.flat.commit layout (st.version + 1) }

end Store

/-- A downloaded delta whose root, if it has one, is a search tree. -/
structure SoundDelta (κ ν : Type) [LinearOrder κ] [DecidableEq ν] where
  delta : TreeDelta κ ν
  sorted : ∀ node, delta.nodesDelta.lookup .root = some node → node.hash.Sorted

namespace SoundDelta

variable [DecidableEq ν]

/-- SetDelta and SaveVersion with useDeltas: if the delta brings any node, the tree
takes the root it names. -/
def apply (delta : SoundDelta κ ν) (tree : Tree κ ν) : Tree κ ν :=
  if delta.delta.nodesDelta.isEmpty then tree
  else
    { root := (delta.delta.nodesDelta.lookup .root).map NodeJson.hash
      sorted := fun node same => by
        obtain ⟨json, found, rfl⟩ := Option.map_eq_some_iff.mp same
        exact delta.sorted json found }

end SoundDelta

section

variable [DecidableEq ν] (layout : Layout κ ν)

def Store.commitDelta (delta : SoundDelta κ ν) (st : Store κ ν) : Store κ ν :=
  { st with tree := delta.apply st.tree }.committerCommit layout

inductive Op (κ ν : Type) [LinearOrder κ] [DecidableEq ν] where
  | get (key : κ)
  | has (key : κ)
  | set (key : κ) (value : ν)
  | delete (key : κ)
  | commit
  | commitDelta (delta : SoundDelta κ ν)

def step (st : Store κ ν) : Op κ ν → Store κ ν
  | .get key => (st.get layout key).2
  | .has _ => st
  | .set key value => st.set key value
  | .delete key => st.delete key
  | .commit => st.committerCommit layout
  | .commitDelta delta => st.commitDelta layout delta

/-- Under the key, the store returns what the tree holds. -/
def Transparent (st : Store κ ν) (key : κ) : Prop :=
  (st.get layout key).1 = st.tree.get key ∧ st.has key = st.tree.has key

/-- A delta leaves alone what the flat store holds, the entry for the version apart. -/
def LeavesHeld (st : Store κ ν) : Op κ ν → Prop
  | .commitDelta delta => ∀ key, key ≠ layout.latestVersionKey → ∀ value,
      st.flat.held key = some value → (delta.apply st.tree).get key = some value
  | _ => True

end

/-- The flat store holds nothing under the key that the tree does not hold. -/
def Backed (st : Store κ ν) (key : κ) : Prop := ∀ value, st.flat.held key = some value → st.tree.get key = some value

variable {key : κ} {layout : Layout κ ν}

theorem held_of_get {flat : Flat κ ν} {value : ν}
    (found : flat.get layout key = some value) : flat.held key = some value := by
  unfold Flat.get at found
  unfold Flat.held
  cases cached : flat.cache.get key with
  | some v =>
    rw [cached] at found
    exact found
  | none =>
    rw [cached] at found
    exact (Option.filter_eq_some_iff.mp found).1

theorem has_iff_held (flat : Flat κ ν) (key : κ) : flat.has key = (flat.held key).isSome := by
  unfold Flat.has Flat.held
  cases flat.cache.get key <;> simp

variable {st : Store κ ν}

theorem Backed.transparent (backed : Backed st key) : Transparent layout st key := by
  constructor
  · unfold Store.get
    split
    · rename_i value found
      exact (backed value (held_of_get found)).symm
    split
    · rename_i value inTree
      exact inTree.symm
    · rename_i absent
      exact absent.symm
  unfold Store.has
  rw [has_iff_held]
  cases held : st.flat.held key with
  | none => rfl
  | some value =>
    unfold Tree.has
    rw [backed value held]
    rfl

theorem held_set (flat : Flat κ ν) (key key' : κ) (value : ν) :
    (flat.set key value).held key' = if key' = key then some value else flat.held key' := by
  unfold Flat.set Flat.held
  rw [SortedMap.get_set]
  split
  · rfl
  · rfl

theorem held_delete (flat : Flat κ ν) (key key' : κ) :
    (flat.delete key).held key' = if key' = key then none else flat.held key' := by
  unfold Flat.delete Flat.held
  rw [SortedMap.get_delete, SortedMap.get_delete]
  split
  · rfl
  · rfl

/-- A read puts into the cache what it found in the tree. -/
theorem Backed.get (backed : Backed st key) (key' : κ) : Backed (st.get layout key').2 key := by
  unfold Store.get
  split
  · exact backed
  split
  · rename_i found inTree
    intro value held
    rw [held_set] at held
    split at held
    · rename_i same
      rw [same]
      exact inTree.trans held
    · exact backed value held
  · exact backed

theorem get_foldr_set (l : List (κ × ν)) (db : SortedMap κ ν) (key : κ) :
    (l.foldr (fun entry db => db.set entry.1 entry.2) db).get key = (l.lookup key).or (db.get key) := by
  induction l with
  | nil => rfl
  | cons entry l ih =>
    rw [List.foldr_cons, SortedMap.get_set, List.lookup_cons, ih]
    by_cases same : key = entry.1
    · simp [same]
    · simp [same, beq_eq_false_iff_ne.mpr same]

theorem held_commit (version : Nat) (flat : Flat κ ν)
    (apart : key ≠ layout.latestVersionKey) : (flat.commit layout version).held key = flat.held key := by
  unfold Flat.commit Flat.held
  rw [SortedMap.get_set_ne _ _ apart, get_foldr_set]
  rfl

variable [DecidableEq ν]

theorem Backed.step {layout : Layout κ ν} {op : Op κ ν}
    (backed : ∀ key, key ≠ layout.latestVersionKey → Backed st key) (leaves : LeavesHeld layout st op) :
    ∀ key, key ≠ layout.latestVersionKey → Backed (FlatKV.step layout st op) key := by
  intro key apart value
  cases op with
  | get key' => exact (backed key apart).get key' value
  | has key' => exact backed key apart value
  | set =>
    intro held
    unfold FlatKV.step Store.set at held ⊢
    rw [held_set] at held
    rw [Tree.get_set]
    split
    · rename_i same
      rwa [if_pos same] at held
    · rename_i differ
      rw [if_neg differ] at held
      exact backed key apart value held
  | delete key' =>
    intro held
    unfold FlatKV.step Store.delete at held ⊢
    rw [held_delete] at held
    rw [Tree.get_remove]
    split
    · rename_i same
      rw [if_pos same] at held
      cases held
    · rename_i differ
      rw [if_neg differ] at held
      exact backed key apart value held
  | commit =>
    intro held
    unfold FlatKV.step Store.committerCommit at held
    rw [held_commit _ _ apart] at held
    exact backed key apart value held
  | commitDelta =>
    intro held
    unfold FlatKV.step Store.commitDelta Store.committerCommit at held
    rw [held_commit _ _ apart] at held
    exact leaves key apart value held

/-- In every state of a run whose deltas leave alone what the flat store holds, the store returns
what the tree holds, under every key but that of the version. -/
theorem flat_transparent {layout : Layout κ ν} {ops : List (Op κ ν)}
    (leaves : Run.Along (step layout) (LeavesHeld layout) .empty ops) {st : Store κ ν}
    (visited : st ∈ Run.visited (step layout) .empty ops) {key : κ} (apart : key ≠ layout.latestVersionKey) :
    Transparent layout st key := by
  have backed := Run.invariant_visited (fun st => ∀ key, key ≠ layout.latestVersionKey → Backed st key)
    (fun _ _ backed leaves => Backed.step backed leaves) (by intro _ _ _ held; cases held) leaves st visited
  exact (backed key apart).transparent

/-- Keys and values are numbers, and the version stands under the key 0. -/
def numbers : Layout Nat Nat := ⟨0, fun version => version, fun _ => false⟩

/-- A delta whose tree is the one leaf. -/
def leafDelta (key value : Nat) : SoundDelta Nat Nat where
  delta := ⟨[(.root, nodeToNodeJson (.leaf key value 2 true))], [], []⟩
  sorted node found := by
    cases found
    exact Node.sorted_leaf ..

/-- The delta of the second version changes the value under the key 1 from 5 to 6, and the store
still returns 5. After any commit it also returns the version under its key, where the tree has
nothing. -/
theorem flat_stale :
    ((Run.exec (step numbers) .empty [.set 1 5, .commit, .commitDelta (leafDelta 1 6)]).get numbers 1).1 = some 5 ∧
    (Run.exec (step numbers) .empty [.set 1 5, .commit, .commitDelta (leafDelta 1 6)]).tree.get 1 = some 6 ∧
    ¬ Transparent numbers (Run.exec (step numbers) .empty [.set 1 5, .commit, .commitDelta (leafDelta 1 6)]) 1 ∧
    ¬ Transparent numbers (Run.exec (step numbers) .empty [.commit]) 0 := by
  refine ⟨by decide +kernel, by decide +kernel, ?_, ?_⟩
  all_goals
    intro transparent
    exact absurd transparent.1 (by decide +kernel)

/-- A delta that adds the key 2 beside the key 1 that is held. -/
def addingDelta : SoundDelta Nat Nat where
  delta := ⟨[(.root, nodeToNodeJson (.inner 2 1 2 2 true (.leaf 1 5 1 true) (.leaf 2 7 2 true)))], [], []⟩
  sorted node found := by
    cases found
    exact ⟨by simp [nodeToNodeJson, Node.contents], rfl, trivial, trivial⟩

theorem flat_transparent_adding :
    Transparent numbers (Run.exec (step numbers) .empty [.set 1 5, .commit, .commitDelta addingDelta]) 2 := by
  have leaves : Run.Along (step numbers) (LeavesHeld numbers) .empty
      [.set 1 5, .commit, .commitDelta addingDelta] := by
    refine ⟨trivial, trivial, ?_, trivial⟩
    intro key apart value held
    by_cases one : key = 1
    · subst one
      have five : some 5 = some value := held
      exact five
    have nothing : (step numbers (step numbers .empty (.set 1 5)) .commit).flat.held key = none := by
      unfold step Store.committerCommit
      rw [held_commit _ _ apart]
      unfold Store.set
      rw [held_set, if_neg one]
      rfl
    rw [nothing] at held
    cases held
  exact flat_transparent leaves (Run.exec_mem_visited ..) (by decide)

end Exchain.FlatKV
