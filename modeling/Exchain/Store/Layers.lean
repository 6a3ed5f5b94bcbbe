import Exchain.Store.CacheIndex

/- Cache stores stacked over a parent. Get asks the parent only for keys no
layer can answer for. Iterating visits, in key order, the keys of the domain
that exist once every layer's writes are laid over the parent. -/

namespace Exchain.Store

open SortedPairs List

variable {K : Type} [LinearOrder K]

namespace CacheKV

theorem get_asks {store : CacheKV K} {key : K} (asks : Layers.asks [store] key = true)
    (parent : Content) : store.get parent key =
      (parent, if store.disableCacheReadList then store else store.setRead key parent) := by
  simp only [Layers.asks, all_cons, all_nil, Bool.and_true, Bool.and_eq_true,
    Option.isNone_iff_eq_none] at asks
  rw [get, asks.1, asks.2]

/-- A store that can answer gives the same answer whatever the parent holds. -/
theorem get_knows {store : CacheKV K} {key : K} (knows : Layers.asks [store] key = false)
    (parent parent' : Content) :
    (store.get parent key).1 = (store.get parent' key).1 ∧ (store.get parent key).2 = store := by
  rw [get, get]
  cases dirty : store.dirty.lookup key with
  | some => exact ⟨rfl, rfl⟩
  | none =>
    cases read : store.readList.lookup key with
    | some => exact ⟨rfl, rfl⟩
    | none => simp [Layers.asks, dirty, read] at knows

end CacheKV

variable {ν : Type} {pairs : List (K × ν)}

theorem ordered_directed (ordered : Ordered (· < ·) pairs) (ascending : Bool) :
    Ordered (precedes ascending) (if ascending then pairs else pairs.reverse) := by
  cases ascending with
  | false => exact ordered.reverse
  | true => exact ordered

variable (domain : Domain K)

/-- Behind an item inside the domain, the run of items inside is all there is. -/
theorem takeWhile_domain {first : K}
    (inside : domain.mem first = true) (above : ∀ p ∈ pairs, first < p.1)
    (ordered : Ordered (· < ·) pairs) :
    pairs.takeWhile (fun p => domain.mem p.1) = pairs.filter (fun p => domain.mem p.1) := by
  induction pairs with
  | nil => rfl
  | cons p rest ih =>
    have tail := ordered_cons.mp ordered
    cases here : domain.mem p.1 with
    | true =>
      simp only [takeWhile_cons, filter_cons, here, if_true]
      rw [ih (fun q later => above q (mem_cons_of_mem _ later)) tail.2]
    | false =>
      have none_later : rest.filter (fun p => domain.mem p.1) = [] := by
        rw [filter_eq_nil_iff]
        intro q later inDomain
        have back := domain.convex (above p mem_cons_self).le (tail.1 q later).le
          inside inDomain
        simp [here] at back
      simp [here, none_later]

theorem itemsInDomain_eq_filter (ordered : Ordered (· < ·) pairs) :
    (pairs.dropWhile (fun p => !domain.mem p.1)).takeWhile (fun p => domain.mem p.1) =
      pairs.filter (fun p => domain.mem p.1) := by
  induction pairs with
  | nil => rfl
  | cons p rest ih =>
    have tail := ordered_cons.mp ordered
    cases here : domain.mem p.1 with
    | true =>
      simp only [dropWhile_cons, takeWhile_cons, filter_cons, here, if_true,
        Bool.not_true, Bool.false_eq_true, if_false]
      rw [takeWhile_domain domain here tail.1 tail.2]
    | false =>
      simp only [dropWhile_cons, filter_cons, here, if_true, Bool.not_false,
        Bool.false_eq_true]
      exact ih tail.2

variable {items : List (K × Content)}

theorem memIterator_ordered (ascending : Bool) (ordered : Ordered (· < ·) items) :
    Ordered (precedes ascending) (memIterator domain items ascending) := by
  rw [memIterator, itemsInDomain_eq_filter domain ordered]
  exact ordered_directed (ordered.filter _) ascending

theorem mem_memIterator (ascending : Bool)
    (ordered : Ordered (· < ·) items) (key : K) (value : Content) :
    (key, value) ∈ memIterator domain items ascending ↔
      domain.mem key = true ∧ (key, value) ∈ items := by
  rw [memIterator, itemsInDomain_eq_filter domain ordered]
  cases ascending <;> simp [and_comm]

/-- An iterator over a store lists what the store holds in the domain. -/
structure Lists (content : K → Content) (domain : Domain K) (ascending : Bool)
    (pairs : List (K × Bytes)) : Prop where
  ordered : Ordered (precedes ascending) pairs
  members : ∀ key value, (key, value) ∈ pairs ↔ domain.mem key = true ∧ content key = some value

theorem Base.iterator_lists (base : Base K) (domain : Domain K) (ascending : Bool) :
    Lists base.lookup domain ascending (base.iterator domain ascending) := by
  have distinct : ((base.entries.map (fun item => (item.1, item.2))).map Prod.fst).Nodup := by
    rw [map_map]
    exact base.nodupKeys
  have sublist : ((base.entries.map (fun item => (item.1, item.2))).filter
      (fun pair => domain.mem pair.1)).Sublist
        (base.entries.map (fun item => (item.1, item.2))) := filter_sublist
  refine ⟨ordered_directed (ordered_insertionSort _ (distinct.sublist (sublist.map _))) _, ?_⟩
  intro key value
  have members : (key, value) ∈ base.iterator domain ascending ↔
      (key, value) ∈ (base.entries.map (fun item => (item.1, item.2))).filter
        (fun pair => domain.mem pair.1) := by
    rw [iterator]
    cases ascending <;> simp [(perm_insertionSort _ _).mem_iff]
  rw [members, AList.lookup_eq_some_iff]
  simp only [mem_filter, mem_map, Prod.mk.injEq]
  constructor
  · rintro ⟨⟨item, inside, rfl, rfl⟩, inDomain⟩
    exact ⟨inDomain, inside⟩
  · rintro ⟨inDomain, inside⟩
    exact ⟨⟨⟨key, value⟩, inside, rfl, rfl⟩, inDomain⟩

namespace Layers

/-- The content under a key once the layers' writes are laid over the parent. -/
def content (parent : K → Content) : Layers K → K → Content
  | [], key => parent key
  | store :: below, key =>
    match store.dirty.lookup key with
    | some cacheValue => cacheValue.content
    | none => content parent below key

def Untouched (layers : Layers K) (key : K) : Prop :=
  ∀ store ∈ layers, store.dirty.lookup key = none

variable {key : K} {layers : Layers K}

theorem content_of_untouched (untouched : layers.Untouched key)
    (parent : K → Content) : layers.content parent key = parent key := by
  induction layers with
  | nil => rfl
  | cons store below ih =>
    rw [content, untouched store mem_cons_self]
    exact ih (fun store inside => untouched store (mem_cons_of_mem _ inside))

theorem content_of_touched (touched : ¬layers.Untouched key)
    (parent parent' : K → Content) : layers.content parent key = layers.content parent' key := by
  induction layers with
  | nil => exact absurd (fun _ inside => absurd inside (by simp)) touched
  | cons store below ih =>
    rw [content, content]
    cases found : store.dirty.lookup key with
    | some => rfl
    | none =>
      refine ih (fun untouched => touched ?_)
      exact forall_mem_cons.mpr ⟨found, untouched⟩

/-- Every layer's sorted list is in step with its dirty map. -/
def Indexed (layers : Layers K) : Prop := ∀ store ∈ layers, store.Indexed

theorem iterator_lists {parent : K → Content} {pairs : List (K × Bytes)} {domain : Domain K}
    {ascending : Bool} (lists : Lists parent domain ascending pairs) (indexed : layers.Indexed) :
    Lists (layers.content parent) domain ascending
      (layers.iterator pairs domain ascending) := by
  induction layers with
  | nil => exact lists
  | cons store below ih =>
    have belowLists := ih (fun layer inside => indexed layer (mem_cons_of_mem _ inside))
    have here := indexed store mem_cons_self
    have after := CacheKV.dirtyItems_indexed here domain
    have sorted : CacheMergeIterator.Sorted ascending
        ⟨iterator pairs domain ascending below,
          memIterator domain (store.dirtyItems domain).sortedCache ascending⟩ :=
      ⟨belowLists.ordered, memIterator_ordered domain ascending after.ordered⟩
    have cached : ∀ key value,
        (key, value) ∈ memIterator domain (store.dirtyItems domain).sortedCache ascending ↔
          domain.mem key = true ∧ (store.dirty.lookup key).map CValue.content = some value := by
      intro key value
      rw [mem_memIterator domain ascending after.ordered]
      exact and_congr_right fun inDomain =>
        CacheKV.mem_dirtyItems_of_domain here inDomain value
    refine ⟨CacheMergeIterator.ordered_items sorted, ?_⟩
    intro key value
    rw [iterator, CacheMergeIterator.mem_items sorted, CacheMergeIterator.Shown, content]
    simp only [cached, belowLists.members]
    cases found : store.dirty.lookup key with
    | some =>
      cases inDomain : domain.mem key <;> simp
    | none => simp

/-- Two parents: the first n pairs of an iterator agree exactly if every key that the layers leave
open and the parents differ on comes after n pairs. -/
theorem iterator_take_eq_iff {parent parent' : K → Content}
    {pairs pairs' : List (K × Bytes)} {domain : Domain K} {ascending : Bool}
    (lists : Lists parent domain ascending pairs) (lists' : Lists parent' domain ascending pairs')
    (indexed : layers.Indexed) (n : Nat) : (layers.iterator pairs domain ascending).take n =
        (layers.iterator pairs' domain ascending).take n ↔
      ∀ key, domain.mem key = true → layers.Untouched key → parent key ≠ parent' key →
        n ≤ rank (precedes ascending) (layers.iterator pairs domain ascending) key := by
  have visited := iterator_lists lists indexed
  have visited' := iterator_lists lists' indexed
  rw [take_eq_take_iff visited.ordered visited'.ordered]
  constructor
  · intro late key inDomain untouched differ
    -- a value that one side shows and the other does not
    have apart : ∃ value, ¬(parent key = some value ↔ parent' key = some value) := by
      cases left : parent key with
      | some value =>
        exact ⟨value, fun iff => differ (left.trans (iff.mp rfl).symm)⟩
      | none =>
        cases right : parent' key with
        | some value => exact ⟨value, by simp⟩
        | none => exact absurd (left.trans right.symm) differ
    obtain ⟨value, apart⟩ := apart
    refine late key value ?_
    rw [visited.members, visited'.members, content_of_untouched untouched,
      content_of_untouched untouched]
    simpa [inDomain] using apart
  · intro late key value differ
    rw [visited.members, visited'.members] at differ
    have inDomain : domain.mem key = true := by
      by_contra outside
      exact differ (iff_of_false (fun both => outside both.1) (fun both => outside both.1))
    have untouched : layers.Untouched key := by
      by_contra touched
      rw [content_of_touched touched parent parent'] at differ
      exact differ Iff.rfl
    rw [content_of_untouched untouched, content_of_untouched untouched] at differ
    refine late key inDomain untouched ?_
    intro same
    rw [same] at differ
    exact differ Iff.rfl

theorem asks_cons (store : CacheKV K) (below : Layers K) (key : K) :
    asks (store :: below) key = (asks [store] key && asks below key) := by
  simp [asks]

theorem asks_append (above below : Layers K) (key : K) :
    asks (above ++ below) key = (asks above key && asks below key) := by
  simp [asks]

/-- Whether or not they ask, the layers answer the same to the same parent. -/
theorem get_knows (knows : layers.asks key = false)
    (parent parent' : Content) : layers.get parent key = layers.get parent' key := by
  induction layers with
  | nil => simp [asks] at knows
  | cons store below ih =>
    rw [get, get]
    cases here : asks [store] key with
    | false => rfl
    | true =>
      rw [asks_cons, here] at knows
      simp [ih knows]

theorem get_indexed (indexed : layers.Indexed) (parent : Content) (key : K) :
    (layers.get parent key).2.Indexed := by
  induction layers with
  | nil => exact indexed
  | cons store below ih =>
    have belowIndexed := ih (fun layer inside => indexed layer (mem_cons_of_mem _ inside))
    have here := indexed store mem_cons_self
    rw [get]
    cases asksHere : asks [store] key with
    | false => exact indexed
    | true =>
      simp only [if_true]
      intro layer inside
      rcases mem_cons.mp inside with rfl | inside
      · rw [CacheKV.get_asks asksHere]
        split
        · exact here
        · exact CacheKV.setRead_indexed here key _
      · exact belowIndexed layer inside

end Layers

end Exchain.Store
