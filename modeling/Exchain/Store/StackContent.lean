import Exchain.Store.Stack

namespace Exchain.Store

open List AList Overlay

variable {K : Type} [LinearOrder K]

namespace CacheKV

theorem dirty_get (store : CacheKV K) (parent : Content) (key : K) :
    (store.get parent key).2.dirty = store.dirty := by
  unfold get
  split
  · rfl
  split
  · rfl
  · split <;> rfl

/-- The key is answered from what was read. -/
def Recalls (store : CacheKV K) (key : K) : Prop :=
  store.dirty.lookup key = none ∧ store.readList.lookup key ≠ none

end CacheKV

namespace Layers

variable (parent : K → Content)

theorem content_append (above below : Layers K) :
    content parent (above ++ below) = content (content parent below) above := by
  induction above with
  | nil => rfl
  | cons _ _ ih =>
    funext key
    rw [cons_append, content, content, ih]

theorem content_congr {parent parent' : K → Content} {key : K} (same : parent key = parent' key)
    (layers : Layers K) : layers.content parent key = layers.content parent' key := by
  induction layers with
  | nil => exact same
  | cons _ _ ih => rw [content, content, ih]

theorem content_get (told : Content) (key : K) (layers : Layers K) :
    content parent (layers.get told key).2 = content parent layers := by
  induction layers with
  | nil => rfl
  | cons _ _ ih =>
    funext other
    rw [get]
    split
    · rw [content, content, CacheKV.dirty_get, ih]
    · rfl

/-- What a layer recalls is what is below it. -/
def Fresh (parent : K → Content) : Layers K → Prop
  | [] => True
  | store :: below =>
    (∀ key value, store.dirty.lookup key = none → store.readList.lookup key = some value →
      value = content parent below key) ∧ Fresh parent below

theorem fresh_append (above below : Layers K) :
    Fresh parent (above ++ below) ↔ Fresh (content parent below) above ∧ Fresh parent below := by
  induction above with
  | nil => simp [Fresh]
  | cons _ _ ih => rw [cons_append, Fresh, Fresh, ih, content_append, and_assoc]

/-- The parent may change under keys that no layer recalls. -/
theorem Fresh.rebase {parent parent' : K → Content} {layers : Layers K}
    (fresh : layers.Fresh parent)
    (same : ∀ key, parent' key = parent key ∨ ∀ store ∈ layers, ¬store.Recalls key) :
    layers.Fresh parent' := by
  induction layers with
  | nil => trivial
  | cons store below ih =>
    refine ⟨fun key value clean read => ?_, ih fresh.2 fun key => ?_⟩
    · rcases same key with same | unread
      · rw [content_congr same]
        exact fresh.1 key value clean read
      · exact absurd ⟨clean, by simp [read]⟩ (unread store mem_cons_self)
    · exact (same key).imp_right fun unread layer inside =>
        unread layer (mem_cons_of_mem _ inside)

theorem Fresh.get {parent : K → Content} {layers : Layers K} (fresh : layers.Fresh parent)
    (key : K) : (layers.get (parent key) key).1 = layers.content parent key ∧
      (layers.get (parent key) key).2.Fresh parent := by
  induction layers with
  | nil => exact ⟨rfl, trivial⟩
  | cons store below ih =>
    obtain ⟨answer, after⟩ := ih fresh.2
    rw [Layers.get, content]
    cases asksHere : asks [store] key with
    | true =>
      obtain ⟨clean, _⟩ : store.dirty.lookup key = none ∧ store.readList.lookup key = none := by
        simpa [asks] using asksHere
      rw [clean]
      dsimp only
      rw [CacheKV.get_asks asksHere, answer]
      refine ⟨rfl, ?_, after⟩
      rw [content_get]
      split
      · exact fresh.1
      intro other value clean' read
      exact forall_insert (fun _ => rfl) (fun _ _ read clean => fresh.1 _ _ clean read) other value
        read clean'
    | false =>
      refine ⟨?_, fresh⟩
      rw [CacheKV.get]
      cases dirty : store.dirty.lookup key with
      | some => rfl
      | none =>
        cases read : store.readList.lookup key with
        | some value => exact fresh.1 key value dirty read
        | none => simp [asks, dirty, read] at asksHere

end Layers

def CacheKV.changes (store : CacheKV K) : Overlay.Delta K Bytes :=
  fun key => (store.dirty.lookup key).map CValue.content

/-- What a stack stands for. -/
def Stack.maps (stack : Stack K) : Overlaid K :=
  ⟨stack.base.lookup, stack.layers.map CacheKV.changes⟩

theorem Layers.content_cons (parent : K → Content) (store : CacheKV K) (below : Layers K) :
    content parent (store :: below) = on store.changes (content parent below) := by
  funext key
  rw [content, on, CacheKV.changes]
  cases store.dirty.lookup key <;> rfl

theorem Layers.content_eq_foldr (parent : K → Content) (layers : Layers K) :
    content parent layers = (layers.map CacheKV.changes).foldr on parent := by
  induction layers with
  | nil => rfl
  | cons _ _ ih => rw [content_cons, ih, map_cons, foldr_cons]

/-- The map that is seen on a layer is what the stores from it on hold. -/
theorem Stack.view_maps (stack : Stack K) (i : Nat) :
    stack.maps.view i = Layers.content stack.base.lookup (stack.layers.drop i) := by
  rw [Layers.content_eq_foldr, map_drop]
  rfl

namespace CacheKV

theorem changes_new : (new : CacheKV K).changes = silent := rfl

theorem changes_setDirty (store : CacheKV K) (key : K) (value : CValue) :
    (store.setDirty key value).changes = Function.update store.changes key (some value.content) := by
  funext other
  rw [changes, setDirty, lookup_insert_if, Function.update_apply]
  split <;> rfl

theorem dirty_writeToCacheKv (store parent : CacheKV K) (key : K) :
    (store.writeToCacheKv parent).dirty.lookup key =
      (store.dirty.lookup key).or (parent.dirty.lookup key) := by
  refine (foldl_entries (fun store key => store.dirty.lookup key) (fun value _ => some value)
    (fun _ _ _ => ?_) store.dirty.nodupKeys parent key).trans ?_
  · exact lookup_insert_if ..
  · change (store.dirty.lookup key).elim _ _ = _
    cases store.dirty.lookup key <;> rfl

theorem changes_writeToCacheKv (store parent : CacheKV K) :
    (store.writeToCacheKv parent).changes = atop store.changes parent.changes := by
  funext key
  rw [changes, dirty_writeToCacheKv, atop, changes]
  cases store.dirty.lookup key <;> rfl

end CacheKV

theorem Base.lookup_setValue (base : Base K) (key other : K) (value : CValue) :
    (base.setValue key value).lookup other =
      if other = key then value.content else base.lookup other := by
  cases value with
  | value => exact lookup_insert_if ..
  | deleted => exact lookup_erase_if ..

theorem Base.lookup_foldl_setValue {items : List (Σ _ : K, CValue)} (distinct : items.NodupKeys)
    (base : Base K) (key : K) :
    (items.foldl (fun base item => base.setValue item.1 item.2) base).lookup key =
      ((items.dlookup key).map CValue.content).getD (base.lookup key) := by
  refine (foldl_entries (fun (base : Base K) key => base.lookup key) (fun value _ => value.content)
    (fun base item key => base.lookup_setValue item.1 key item.2) distinct base key).trans ?_
  cases items.dlookup key <;> rfl

theorem CacheKV.lookup_writeToBase (store : CacheKV K) (base : Base K) :
    (store.writeToBase base).lookup = on store.changes base.lookup := by
  funext key
  have sorted := perm_insertionSort (fun a b : (Σ _ : K, CValue) => a.1 ≤ b.1)
    store.dirty.entries
  have distinct := (perm_nodupKeys sorted).mpr store.dirty.nodupKeys
  rw [writeToBase, Base.lookup_foldl_setValue distinct, perm_dlookup key distinct sorted]
  rfl

namespace Stack

/-- Every sorted list is in step with its writes, and what a layer recalls is below
it. -/
structure Sound (stack : Stack K) : Prop where
  indexed : stack.layers.Indexed
  fresh : stack.layers.Fresh stack.base.lookup

/-- What is put under the layers above has to be sound by itself, and to hold what was there under
the keys they recall. -/
theorem Sound.under {stack : Stack K} (sound : stack.Sound) {i : Nat} {base : Base K}
    {layers : Layers K} (sound' : (⟨base, layers⟩ : Stack K).Sound)
    (same : ∀ key, layers.content base.lookup key =
        Layers.content stack.base.lookup (stack.layers.drop i) key ∨
      ∀ store ∈ stack.layers.take i, ¬store.Recalls key) : (stack.under i base layers).Sound := by
  obtain ⟨indexed, fresh⟩ := sound
  rw [← take_append_drop i stack.layers, Layers.fresh_append] at fresh
  refine ⟨fun store inside => ?_, ?_⟩
  · rcases mem_append.mp inside with above | below
    · exact indexed store (mem_of_mem_take above)
    · exact sound'.indexed store below
  · exact (Layers.fresh_append ..).mpr ⟨fresh.1.rebase same, sound'.fresh⟩

theorem Sound.drop {stack : Stack K} (sound : stack.Sound) (i : Nat) :
    (⟨stack.base, stack.layers.drop i⟩ : Stack K).Sound := by
  obtain ⟨indexed, fresh⟩ := sound
  rw [← take_append_drop i stack.layers, Layers.fresh_append] at fresh
  exact ⟨fun store inside => indexed store (mem_of_mem_drop inside), fresh.2⟩

end Stack

end Exchain.Store
