import Exchain.Lib.Run
import Exchain.Store.StackContent

namespace Exchain.Store

open CacheKV Layers
open List hiding getElem?_eq_some_iff
theorem Overlaid.view_write {K : Type} {maps : Overlaid K} {i : Nat}
    (inside : i < maps.layers.length) : (maps.write i).view (i + 1) = maps.view i := by
  have taken : (maps.layers.take i).length = i := length_take_of_le inside.le
  have past : (maps.layers.take i).drop (i + 1) = [] := drop_eq_nil_of_le (by omega)
  unfold Overlaid.write
  match rest : maps.layers.drop i with
  | [] => exact absurd (drop_eq_nil_iff.mp rest) (by omega)
  | [change] => simp [Overlaid.view, rest, drop_append, taken, past]
  | change :: parent :: below =>
    simp [Overlaid.view, rest, drop_append, taken, past, Overlay.atop_on]

namespace Stack

variable {K : Type} [LinearOrder K]

/-- No layer above a store that is written recalls the key. -/
def Undisturbed (stack : Stack K) : Op K → Prop
  | .set i key _ => ∀ store ∈ stack.layers.take i, ¬store.Recalls key
  | .delete i key => ∀ store ∈ stack.layers.take i, ¬store.Recalls key
  | _ => True

/-- What an operation does is what it does to the maps, and it answers as they do. After Write the
layer is empty and its parent holds what it held. -/
structure Faithful (stack : Stack K) (op : Op K) : Prop where
  answers : stack.maps.Answers op (stack.step op).2
  moves : (stack.step op).1.maps = stack.maps.step op
  flushed : ∀ i store, op = .write i → stack.layers[i]? = some store →
    (stack.step op).1.layers[i]? = some new ∧
      (stack.step op).1.maps.view (i + 1) = stack.maps.view i

theorem maps_under (stack : Stack K) (i : Nat) (base : Base K) (layers : Layers K) :
    (stack.under i base layers).maps =
      ⟨base.lookup, stack.maps.layers.take i ++ layers.map changes⟩ := by
  simp [under, maps]

theorem maps_under_drop (stack : Stack K) (i : Nat) {layers : Layers K}
    (same : layers.map changes = (stack.layers.drop i).map changes) :
    (stack.under i stack.base layers).maps = stack.maps := by
  rw [maps_under, same, map_drop]
  simp [maps]

theorem changes_get (told : Content) (key : K) (layers : Layers K) :
    (layers.get told key).2.map changes = layers.map changes := by
  induction layers with
  | nil => rfl
  | cons _ _ ih =>
    rw [Layers.get]
    split
    · rw [map_cons, ih]
      congr 1
      unfold changes
      rw [dirty_get]
    · rfl

theorem Sound.get {stack : Stack K} (sound : stack.Sound) (i : Nat) (key : K) :
    (stack.get i key).1 = stack.maps.view i key ∧ (stack.get i key).2.maps = stack.maps ∧
      (stack.get i key).2.Sound := by
  have below := sound.drop i
  obtain ⟨answer, fresh⟩ := below.fresh.get key
  refine ⟨?_, stack.maps_under_drop i (changes_get ..), sound.under ⟨?_, fresh⟩ fun other => ?_⟩
  · rw [view_maps]
    exact answer
  · exact get_indexed below.indexed _ key
  · left
    rw [content_get]

theorem changes_dirtyItems (domain : Domain K) (layers : Layers K) :
    (layers.map (·.dirtyItems domain)).map changes = layers.map changes := by
  rw [map_map]
  rfl

theorem fresh_dirtyItems {parent : K → Content} (domain : Domain K) {layers : Layers K}
    (fresh : layers.Fresh parent) : Layers.Fresh parent (layers.map (·.dirtyItems domain)) := by
  induction layers with
  | nil => trivial
  | cons _ _ ih =>
    refine ⟨?_, ih fresh.2⟩
    rw [content_eq_foldr, changes_dirtyItems, ← content_eq_foldr]
    exact fresh.1

theorem Sound.iterator {stack : Stack K} (sound : stack.Sound) (i : Nat) (start stop : Option K)
    (ascending : Bool) : Lists (stack.maps.view i) (.between start stop) ascending
        (stack.iterator i start stop ascending).1 ∧
      (stack.iterator i start stop ascending).2.maps = stack.maps ∧
      (stack.iterator i start stop ascending).2.Sound := by
  have below := sound.drop i
  refine ⟨?_, stack.maps_under_drop i (changes_dirtyItems ..), sound.under ⟨?_, ?_⟩ fun other => ?_⟩
  · rw [view_maps]
    exact iterator_lists (stack.base.iterator_lists _ ascending) below.indexed
  · intro store inside
    obtain ⟨before, within, rfl⟩ := mem_map.mp inside
    exact dirtyItems_indexed (below.indexed before within) _
  · exact fresh_dirtyItems _ below.fresh
  · left
    rw [content_eq_foldr, changes_dirtyItems, ← content_eq_foldr]

section

variable {stack : Stack K}

theorem Sound.setValue (sound : stack.Sound) {i : Nat} {key : K} (value : CValue)
    (unread : ∀ store ∈ stack.layers.take i, ¬store.Recalls key) :
    (stack.setValue i key value).maps = stack.maps.setValue i key value.content ∧
      (stack.setValue i key value).Sound := by
  have below := sound.drop i
  have dropped : stack.maps.layers.drop i = (stack.layers.drop i).map changes := map_drop.symm
  unfold Stack.setValue Overlaid.setValue
  rw [dropped]
  cases rest : stack.layers.drop i with
  | nil =>
    have updated : (stack.base.setValue key value).lookup =
        Function.update stack.base.lookup key value.content := by
      funext other
      rw [Base.lookup_setValue, Function.update_apply]
    refine ⟨?_, sound.under ⟨by simp [Layers.Indexed], trivial⟩ fun other => ?_⟩
    · rw [maps_under, updated, map_nil, append_nil]
      rfl
    rw [rest, content, Base.lookup_setValue]
    by_cases same : other = key
    · exact .inr (same ▸ unread)
    · exact .inl (if_neg same)
  | cons store =>
    rw [rest] at below
    refine ⟨?_, sound.under ⟨?_, ?_, below.fresh.2⟩ fun other => ?_⟩
    · rw [maps_under, map_cons, changes_setDirty]
      rfl
    · exact forall_mem_cons.mpr ⟨setDirty_indexed (below.indexed store mem_cons_self) key value,
        fun layer inside => below.indexed layer (mem_cons_of_mem _ inside)⟩
    · intro other read clean recalled
      rw [setDirty, AList.lookup_insert_if] at clean
      split at clean
      · simp at clean
      exact below.fresh.1 other read clean recalled
    · rw [rest, content_cons, content_cons, changes_setDirty, Overlay.on,
        Overlay.on, Function.update_apply]
      by_cases same : other = key
      · exact .inr (same ▸ unread)
      · exact .inl (by rw [if_neg same])

theorem Sound.write (sound : stack.Sound) (i : Nat) :
    (stack.write i).maps = stack.maps.write i ∧ (stack.write i).Sound := by
  have below := sound.drop i
  have dropped : stack.maps.layers.drop i = (stack.layers.drop i).map changes := map_drop.symm
  unfold Stack.write Overlaid.write
  rw [dropped]
  match rest : stack.layers.drop i with
  | [] => exact ⟨rfl, sound⟩
  | [store] =>
    refine ⟨?_, sound.under ⟨?_, ?_, trivial⟩ fun other => .inl ?_⟩
    · rw [maps_under, lookup_writeToBase]
      rfl
    · intro layer inside
      obtain rfl := mem_singleton.mp inside
      exact new_indexed
    · intro other value _ recalled
      simp [clearCache, new] at recalled
    · rw [rest, content_cons, content_cons, lookup_writeToBase]
      rfl
  | store :: parent :: layers =>
    rw [rest] at below
    refine ⟨?_, sound.under ⟨?_, ?_, ?_, below.fresh.2.2⟩ fun other => .inl ?_⟩
    · rw [maps_under, map_cons, map_cons, changes_writeToCacheKv]
      rfl
    · intro layer inside
      simp only [mem_cons] at inside
      rcases inside with rfl | rfl | inside
      · exact new_indexed
      · exact writeToCacheKv_indexed store (below.indexed parent (by simp))
      · exact below.indexed layer (by simp [inside])
    · intro other value _ recalled
      simp [clearCache, new] at recalled
    · intro other value clean recalled
      rw [(writeToCacheKv_reads store parent).1] at recalled
      rw [dirty_writeToCacheKv, Option.or_eq_none_iff] at clean
      exact below.fresh.2.1 other value clean.2 recalled
    · rw [rest, content_cons, content_cons, content_cons,
        content_cons, changes_writeToCacheKv, Overlay.atop_on]
      rfl

theorem layers_write {i : Nat} (inside : i < stack.layers.length) :
    (stack.write i).layers[i]? = some new := by
  have taken : (stack.layers.take i).length = i := length_take_of_le inside.le
  unfold write
  match rest : stack.layers.drop i with
  | [] => exact absurd (drop_eq_nil_iff.mp rest) (by omega)
  | [store] => simp [under, taken, clearCache]
  | store :: parent :: below => simp [under, taken, clearCache]

end

theorem Sound.step {stack : Stack K} (sound : stack.Sound) {op : Op K}
    (undisturbed : stack.Undisturbed op) : stack.Faithful op ∧ (stack.step op).1.Sound := by
  cases op with
  | get i key =>
    obtain ⟨answer, kept, sound'⟩ := sound.get i key
    exact ⟨⟨answer, kept, by rintro _ _ ⟨⟩⟩, sound'⟩
  | has i key =>
    obtain ⟨answer, kept, sound'⟩ := sound.get i key
    exact ⟨⟨congrArg Option.isSome answer, kept, by rintro _ _ ⟨⟩⟩, sound'⟩
  | set i key value =>
    obtain ⟨moves, sound'⟩ := sound.setValue (.value value) undisturbed
    exact ⟨⟨rfl, moves, by rintro _ _ ⟨⟩⟩, sound'⟩
  | delete =>
    obtain ⟨moves, sound'⟩ := sound.setValue .deleted undisturbed
    exact ⟨⟨rfl, moves, by rintro _ _ ⟨⟩⟩, sound'⟩
  | iterate i start stop ascending =>
    obtain ⟨lists, kept, sound'⟩ := sound.iterator i start stop ascending
    exact ⟨⟨lists, kept, by rintro _ _ ⟨⟩⟩, sound'⟩
  | write i =>
    obtain ⟨moves, sound'⟩ := sound.write i
    refine ⟨⟨rfl, moves, ?_⟩, sound'⟩
    rintro _ store ⟨⟩ here
    have inside : i < stack.layers.length := (getElem?_eq_some_iff.mp here).1
    refine ⟨layers_write inside, ?_⟩
    rw [show (stack.step (.write i)).1.maps = _ from moves]
    exact Overlaid.view_write (by simpa [maps] using inside)
  | cacheWrap i =>
    refine ⟨⟨rfl, ?_, by rintro _ _ ⟨⟩⟩, ?_, ?_, (sound.drop i).fresh⟩
    · simp [Stack.step, cacheWrap, maps, Overlaid.step, changes_new]
    · exact forall_mem_cons.mpr ⟨new_indexed, (sound.drop i).indexed⟩
    · intro key value _ recalled
      simp [new] at recalled
  | discard i =>
    refine ⟨⟨rfl, ?_, by rintro _ _ ⟨⟩⟩, sound.drop (i + 1)⟩
    simp [Stack.step, discard, maps, Overlaid.step]

theorem sound_bare (base : Base K) : (⟨base, []⟩ : Stack K).Sound :=
  ⟨by simp [Layers.Indexed], trivial⟩

/-- A run whose writes leave alone what the layers above recall is a run of the maps. -/
theorem faithful_of_undisturbed {stack : Stack K} (sound : stack.Sound) {ops : List (Op K)}
    (undisturbed : Run.Along (fun stack op => (stack.step op).1) Undisturbed stack ops) :
    Run.Along (fun stack op => (stack.step op).1) Faithful stack ops := by
  induction ops generalizing stack with
  | nil => trivial
  | cons op rest ih =>
    obtain ⟨faithful, sound'⟩ := sound.step undisturbed.1
    exact ⟨faithful, ih sound' undisturbed.2⟩

/-- A layer is written under a key that the layer above has read. -/
theorem read_before_write_recalled :
    let stack := Run.exec (fun stack op => (stack.step op).1) (⟨∅, []⟩ : Stack Nat)
      [.cacheWrap 0, .cacheWrap 0, .get 0 1, .set 1 1 [7]]
    (stack.step (.get 0 1)).2 = .content none ∧ stack.maps.view 0 1 = some [7] := by
  decide

def twoLayers : List (Op Nat) :=
  [.cacheWrap 0, .set 0 1 [7], .cacheWrap 0, .get 0 1, .delete 0 1, .iterate 0 none none true,
    .set 1 2 [8], .get 0 2, .write 0, .iterate 1 none (some 3) false, .has 0 1, .discard 0]

theorem faithful_twoLayers :
    Run.Along (fun stack op => (stack.step op).1) Faithful (⟨∅, []⟩ : Stack Nat) twoLayers := by
  apply faithful_of_undisturbed (sound_bare ∅)
  refine ⟨trivial, nofun, trivial, trivial, nofun, trivial, ?_, trivial, trivial, trivial, trivial,
    trivial, trivial⟩
  intro store above recalls
  obtain rfl := mem_singleton.mp above
  exact recalls.2 rfl

end Stack

end Exchain.Store
