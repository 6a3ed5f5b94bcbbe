import Exchain.Store.WriteSets

namespace Exchain.Store

open List

variable {K : Type} [LinearOrder K]

namespace Layers

def read (parent : K → Content) (layers : Layers K) (key : K) : Content :=
  (layers.get (parent key) key).1

variable (parent : K → Content)

theorem read_cons (store : CacheKV K) (below : Layers K) (key : K) :
    read parent (store :: below) key = ((store.dirty.lookup key).map CValue.content).getD
        ((store.readList.lookup key).getD (read parent below key)) := by
  unfold read
  rw [get]
  split
  · rename_i asksHere
    dsimp only
    rw [CacheKV.get_asks asksHere]
    obtain ⟨clean, unread⟩ : store.dirty.lookup key = none ∧ store.readList.lookup key = none := by
      simpa [asks] using asksHere
    rw [clean, unread]
    rfl
  rename_i knows
  rw [CacheKV.get]
  cases dirty : store.dirty.lookup key with
  | some => rfl
  | none =>
    cases recalled : store.readList.lookup key with
    | some => rfl
    | none => simp [asks, dirty, recalled] at knows

theorem read_drop_get (layers : Layers K) (key other : K) (d : Nat) :
    read parent ((layers.get (parent key) key).2.drop d) other = read parent (layers.drop d) other := by
  induction layers generalizing d with
  | nil => rfl
  | cons store below ih =>
    rw [get]
    split
    · rename_i asksHere
      cases d with
      | succ d => exact ih d
      | zero =>
        have below' : read parent (get (parent key) key below).2 other = read parent below other :=
          ih 0
        rw [drop_zero, drop_zero]
        dsimp only
        rw [CacheKV.get_asks asksHere, read_cons, read_cons, below']
        split
        · rfl
        dsimp only [CacheKV.setRead]
        by_cases same : other = key
        · subst same
          obtain ⟨_, unread⟩ : store.dirty.lookup other = none ∧
              store.readList.lookup other = none := by
            simpa [asks] using asksHere
          simp [unread, read]
        · simp [same]
    · rfl

theorem read_get (layers : Layers K) (key other : K) :
    read parent (layers.get (parent key) key).2 other = read parent layers other :=
  read_drop_get parent layers key other 0

theorem length_get (told : Content) (key : K) (layers : Layers K) :
    (layers.get told key).2.length = layers.length := by
  induction layers with
  | nil => rfl
  | cons _ _ ih =>
    rw [get]
    split
    · simp [ih]
    · rfl

theorem length_setTop (key : K) (value : CValue) (layers : Layers K) :
    (setTop key value layers).length = layers.length := by
  cases layers <;> rfl

theorem drop_setTop (key : K) (value : CValue) (layers : Layers K) (d : Nat) :
    (setTop key value layers).drop (d + 1) = layers.drop (d + 1) := by
  cases layers <;> rfl

theorem read_setTop {layers : Layers K} (some_layer : layers ≠ []) (key : K)
    (value : CValue) (other : K) : read parent (setTop key value layers) other =
      if other = key then value.content else read parent layers other := by
  cases layers with
  | nil => exact absurd rfl some_layer
  | cons =>
    rw [setTop, read_cons, read_cons, CacheKV.setDirty, AList.lookup_insert_if]
    split <;> rfl

/-- What the loop of writeToCacheKvWithSnapShotWSet leaves. -/
structure Written (base : Base K) (items : List (Σ _ : K, CValue))
    (before after : SnapshotWSet K × Layers K) : Prop where
  length : after.2.length = before.2.length
  above : ∀ key, read base.lookup after.2 key =
    ((items.dlookup key).map CValue.content).getD (read base.lookup before.2 key)
  below : ∀ d key, read base.lookup (after.2.drop (d + 1)) key =
    read base.lookup (before.2.drop (d + 1)) key
  set : ∀ key, after.1.lookup key =
    ((items.dlookup key).map fun _ => read base.lookup before.2 key).or (before.1.lookup key)

theorem written_foldl (base : Base K) {items : List (Σ _ : K, CValue)} (distinct : items.NodupKeys)
    (before : SnapshotWSet K × Layers K) (some_layer : before.2 ≠ []) :
    Written base items before (items.foldl (writeItem base) before) := by
  induction items generalizing before with
  | nil => exact ⟨rfl, fun _ => rfl, fun _ _ => rfl, fun _ => rfl⟩
  | cons item rest ih =>
    obtain ⟨a, value⟩ := item
    rw [nodupKeys_cons] at distinct
    have absent : rest.dlookup a = none := dlookup_eq_none.mpr distinct.1
    have asked : (before.2.get (base.lookup a) a).2 ≠ [] := by
      rw [← length_pos_iff, length_get, length_pos_iff]
      exact some_layer
    have first : ∀ key, read base.lookup (writeItem base before ⟨a, value⟩).2 key =
        if key = a then value.content else read base.lookup before.2 key := by
      intro key
      rw [writeItem, read_setTop base.lookup asked, read_get base.lookup]
    have next : (writeItem base before ⟨a, value⟩).2 ≠ [] := by
      rw [← length_pos_iff, writeItem, length_setTop, length_pos_iff]
      exact asked
    obtain ⟨length, above, below, set⟩ := ih distinct.2 _ next
    rw [foldl_cons]
    refine ⟨?_, fun key => ?_, fun d key => ?_, fun key => ?_⟩
    · rw [length, writeItem, length_setTop, length_get]
    · rw [above, first]
      by_cases same : key = a
      · subst same
        simp [absent]
      · rw [dlookup_cons_ne _ _ same, if_neg same]
    · rw [below, writeItem, drop_setTop]
      exact read_drop_get base.lookup before.2 a key (d + 1)
    · rw [set, first]
      by_cases same : key = a
      · subst same
        simp [absent, writeItem, read]
      · rw [if_neg same, writeItem]
        simp [same]

end Layers

theorem Base.written_foldl {items : List (Σ _ : K, CValue)} (distinct : items.NodupKeys)
    (before : SnapshotWSet K × Base K) (key : K) :
    (items.foldl Base.writeItem before).2.lookup key =
        ((items.dlookup key).map CValue.content).getD (before.2.lookup key) ∧
      (items.foldl Base.writeItem before).1.lookup key =
        ((items.dlookup key).map fun _ => before.2.lookup key).or (before.1.lookup key) := by
  induction items generalizing before with
  | nil => exact ⟨rfl, rfl⟩
  | cons item rest ih =>
    obtain ⟨a, value⟩ := item
    rw [nodupKeys_cons] at distinct
    have absent : rest.dlookup a = none := dlookup_eq_none.mpr distinct.1
    obtain ⟨base, set⟩ := ih distinct.2 (writeItem before ⟨a, value⟩)
    rw [foldl_cons, base, set, writeItem, lookup_setValue, AList.lookup_insert_if]
    by_cases same : key = a
    · subst same
      simp [absent]
    · rw [dlookup_cons_ne rest ⟨a, value⟩ same, if_neg same, if_neg same]
      exact ⟨rfl, rfl⟩

namespace Stack

variable (stack : Stack K)

def readBelow (d : Nat) : K → Content :=
  Layers.read stack.base.lookup (stack.layers.drop d)

def read : K → Content := stack.readBelow 0

theorem read_bare (base : Base K) (key : K) : (⟨base, []⟩ : Stack K).read key = base.lookup key := rfl

/-- The innermost store is written into its parent and dropped. -/
def commit : Stack K := stack.writeWithSnapshotWSet.2.discard 0

variable {stack : Stack K}

theorem read_commit {store : CacheKV K} {below : Layers K}
    (here : stack.layers = store :: below) (key : K) :
    stack.commit.read key = (store.changes key).getD (stack.readBelow 1 key) ∧
      stack.writeWithSnapshotWSet.1.lookup key =
        (store.changes key).map fun _ => stack.readBelow 1 key := by
  obtain ⟨base, layers⟩ := stack
  obtain rfl : layers = store :: below := here
  have noted : ∀ value : Content, ((store.dirty.entries.dlookup key).map fun _ => value).or
      (AList.lookup key (∅ : SnapshotWSet K)) = (store.changes key).map fun _ => value := by
    intro value
    rw [AList.lookup_empty, Option.or_none, CacheKV.changes, Option.map_map]
    rfl
  cases below with
  | nil =>
    have sorted := perm_insertionSort (fun a b : (Σ _ : K, CValue) => a.1 ≤ b.1)
      store.dirty.entries
    have distinct := (perm_nodupKeys sorted).mpr store.dirty.nodupKeys
    obtain ⟨written, set⟩ := Base.written_foldl distinct (∅, base) key
    rw [perm_dlookup key distinct sorted] at written set
    exact ⟨written, set.trans (noted _)⟩
  | cons parent below =>
    have written := Layers.written_foldl base store.dirty.nodupKeys (∅, parent :: below) (by simp)
    exact ⟨written.above key, (written.set key).trans (noted _)⟩

theorem readBelow_commit {store parent : CacheKV K} {below : Layers K}
    (here : stack.layers = store :: parent :: below) :
    stack.commit.base = stack.base ∧ stack.commit.layers.length = below.length + 1 ∧
      ∀ d key, stack.commit.readBelow (d + 1) key = stack.readBelow (d + 2) key := by
  obtain ⟨base, layers⟩ := stack
  obtain rfl : layers = store :: parent :: below := here
  have written := Layers.written_foldl base store.dirty.nodupKeys (∅, parent :: below) (by simp)
  exact ⟨rfl, written.length, written.below⟩

variable (set : SnapshotWSet K)

/-- A set is reverted in a cache, which is written and dropped. -/
def revert : Stack K :=
  (((stack.cacheWrap 0).revertSnapshotWSet set).write 0).discard 0

/-- The cache in which a set is reverted. -/
def restorer : CacheKV K :=
  CacheKV.writeToCacheKv ⟨set.mapValues fun _ => .restoring, ∅, [], [], false⟩ .new

theorem revertSnapshotWSet_cacheWrap :
    (stack.cacheWrap 0).revertSnapshotWSet set = ⟨stack.base, restorer set :: stack.layers⟩ := by
  have folded : ∀ (items : List (Σ _ : K, Content)) (store : CacheKV K),
      items.foldl (fun stack item => stack.setValue 0 item.1 (.restoring item.2))
          (⟨stack.base, store :: stack.layers⟩ : Stack K) =
        ⟨stack.base, items.foldl (fun store item => store.setDirty item.1 (.restoring item.2)) store
          :: stack.layers⟩ := by
    intro items
    induction items with
    | nil => exact fun _ => rfl
    | cons item rest ih => exact fun store => ih (store.setDirty item.1 (.restoring item.2))
  refine (folded set.entries .new).trans ?_
  rw [restorer, CacheKV.writeToCacheKv, AList.mapValues, foldl_map]

theorem changes_restorer (key : K) : (restorer set).changes key = set.lookup key := by
  have restoring : ∀ content : Content, (CValue.restoring content).content = content := by
    intro content
    cases content <;> rfl
  rw [restorer, CacheKV.changes_writeToCacheKv, CacheKV.changes_new, Overlay.atop_silent,
    CacheKV.changes, AList.lookup_mapValues]
  simp [Function.comp_def, restoring]

theorem revert_bare (base : Base K) (set : SnapshotWSet K) :
    (⟨base, []⟩ : Stack K).revert set = ⟨(restorer set).writeToBase base, []⟩ := by
  rw [revert, revertSnapshotWSet_cacheWrap]
  rfl

theorem revert_cached (base : Base K) (parent : CacheKV K) (below : Layers K) (set : SnapshotWSet K) :
    (⟨base, parent :: below⟩ : Stack K).revert set =
      ⟨base, (restorer set).writeToCacheKv parent :: below⟩ := by
  rw [revert, revertSnapshotWSet_cacheWrap]
  rfl

theorem read_revert (key : K) :
    (stack.revert set).read key = (set.lookup key).getD (stack.read key) := by
  obtain ⟨base, layers⟩ := stack
  cases layers with
  | nil =>
    rw [revert_bare, read_bare, ← changes_restorer]
    exact congrFun ((restorer set).lookup_writeToBase base) key
  | cons parent =>
    have dirty := (restorer set).dirty_writeToCacheKv parent key
    have reads := ((restorer set).writeToCacheKv_reads parent).1
    rw [revert_cached, ← changes_restorer]
    unfold read readBelow
    rw [drop_zero, drop_zero, Layers.read_cons, Layers.read_cons, dirty, reads,
      CacheKV.changes]
    cases (restorer set).dirty.lookup key <;> rfl

theorem readBelow_revert (some_layer : stack.layers ≠ []) (set : SnapshotWSet K) :
    (stack.revert set).base = stack.base ∧ (stack.revert set).layers.length = stack.layers.length ∧
      ∀ d, (stack.revert set).readBelow (d + 1) = stack.readBelow (d + 1) := by
  obtain ⟨_, layers⟩ := stack
  cases layers with
  | nil => exact absurd rfl some_layer
  | cons =>
    rw [revert_cached]
    exact ⟨rfl, rfl, fun _ => rfl⟩

end Stack

end Exchain.Store
