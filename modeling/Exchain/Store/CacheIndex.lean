import Exchain.Store.MergeIterator

/- The sorted list of a cache store against its dirty map. The list may lag
behind for keys that are still unsorted; sorting a domain brings it up to date
there, so that iterators see exactly what the dirty map holds. -/

namespace Exchain.Store

open SortedPairs List

variable {K : Type} [LinearOrder K]

namespace CacheKV

/-- A key of the sorted list that is not unsorted shows its dirty value; every dirty key is in one
of the two. -/
structure Indexed (store : CacheKV K) : Prop where
  ordered : Ordered (· < ·) store.sortedCache
  fresh : ∀ key value, (key, value) ∈ store.sortedCache → key ∉ store.unsortedCache →
    (store.dirty.lookup key).map CValue.content = some value
  known : ∀ key value, (key, value) ∈ store.sortedCache → (store.dirty.lookup key).isSome
  covered : ∀ key, (store.dirty.lookup key).isSome →
    key ∈ store.unsortedCache ∨ ∃ value, (key, value) ∈ store.sortedCache
  unsorted : ∀ key ∈ store.unsortedCache, (store.dirty.lookup key).isSome
  nodup : store.unsortedCache.Nodup

theorem new_indexed : (new : CacheKV K).Indexed := by
  constructor <;> simp [new]

variable {store : CacheKV K}

theorem setRead_indexed (indexed : store.Indexed) (key : K)
    (value : Content) : (store.setRead key value).Indexed :=
  ⟨indexed.ordered, indexed.fresh, indexed.known, indexed.covered, indexed.unsorted, indexed.nodup⟩

theorem setDirty_indexed (indexed : store.Indexed) (key : K)
    (value : CValue) : (store.setDirty key value).Indexed := by
  refine ⟨indexed.ordered, ?_, ?_, ?_, ?_, indexed.nodup.insert⟩
  · intro key' value' inside outside
    rw [setDirty, mem_insert_iff, not_or] at outside
    rw [setDirty, AList.lookup_insert_ne outside.1]
    exact indexed.fresh key' value' inside outside.2
  · intro key' value' inside
    rw [setDirty, AList.lookup_insert_if]
    split
    · rfl
    · exact indexed.known key' value' inside
  · intro key' found
    rw [setDirty, AList.lookup_insert_if] at found
    rw [setDirty, mem_insert_iff]
    split at found
    · rename_i same
      exact .inl (.inl same)
    · exact (indexed.covered key' found).imp .inr id
  · intro key' inside
    rw [setDirty, mem_insert_iff] at inside
    rw [setDirty, AList.lookup_insert_if]
    split
    · rfl
    · rename_i other
      exact indexed.unsorted key' (inside.resolve_left other)

theorem writeToCacheKv_indexed (store : CacheKV K) {parent : CacheKV K}
    (indexed : parent.Indexed) : (store.writeToCacheKv parent).Indexed := by
  rw [writeToCacheKv]
  induction store.dirty.entries generalizing parent with
  | nil => exact indexed
  | cons item rest ih => exact ih (setDirty_indexed indexed item.1 item.2)

theorem writeToCacheKv_reads (store parent : CacheKV K) :
    (store.writeToCacheKv parent).readList = parent.readList ∧
      (store.writeToCacheKv parent).disableCacheReadList = parent.disableCacheReadList := by
  rw [writeToCacheKv]
  induction store.dirty.entries generalizing parent with
  | nil => exact ⟨rfl, rfl⟩
  | cons item rest ih => exact ih (parent.setDirty item.1 item.2)

/-- What splicing unsorted items into sorted ones must give. -/
structure Spliced (unsorted sorted result : List (K × Content)) : Prop where
  ordered : Ordered (· < ·) result
  members : ∀ pair, pair ∈ result ↔
    pair ∈ unsorted ∨ (pair ∈ sorted ∧ ∀ value, (pair.1, value) ∉ unsorted)

theorem Spliced.cons {u : K × Content} {us sorted rest result : List (K × Content)}
    (spliced : Spliced us rest result) (ordered : Ordered (· < ·) (u :: us))
    (later : ∀ e ∈ rest, u.1 < e.1) (others : ∀ e, e ∈ sorted ∧ e.1 ≠ u.1 ↔ e ∈ rest) :
    Spliced (u :: us) sorted (u :: result) := by
  have above := (ordered_cons.mp ordered).1
  refine ⟨ordered_cons.mpr ⟨?_, spliced.ordered⟩, ?_⟩
  · intro pair inside
    rcases (spliced.members pair).mp inside with inside | ⟨inside, -⟩
    · exact above pair inside
    · exact later pair inside
  intro pair
  simp only [mem_cons, spliced.members pair, ← others pair, not_or]
  constructor
  · rintro (same | inside | ⟨⟨inside, apart⟩, absent⟩)
    · exact .inl (.inl same)
    · exact .inl (.inr inside)
    · exact .inr ⟨inside, fun value => ⟨fun eq => apart (congrArg (fun p => p.1) eq), absent value⟩⟩
  rintro ((same | inside) | ⟨inside, absent⟩)
  · exact .inl same
  · exact .inr (.inl inside)
  · refine .inr (.inr ⟨⟨inside, ?_⟩, fun value => (absent value).2⟩)
    exact fun same => (absent u.2).1 (Prod.ext same rfl)

theorem Spliced.keep {e : K × Content} {unsorted es result : List (K × Content)}
    (spliced : Spliced unsorted es result) (ordered : Ordered (· < ·) (e :: es))
    (earlier : ∀ u ∈ unsorted, e.1 < u.1) : Spliced unsorted (e :: es) (e :: result) := by
  have above := (ordered_cons.mp ordered).1
  refine ⟨ordered_cons.mpr ⟨?_, spliced.ordered⟩, ?_⟩
  · intro pair inside
    rcases (spliced.members pair).mp inside with inside | ⟨inside, -⟩
    · exact earlier pair inside
    · exact above pair inside
  intro pair
  simp only [mem_cons, spliced.members pair]
  constructor
  · rintro (rfl | inside | ⟨inside, absent⟩)
    · exact .inr ⟨.inl rfl, fun value inside => lt_irrefl _ (earlier (_, value) inside)⟩
    · exact .inl inside
    · exact .inr ⟨.inr inside, absent⟩
  · rintro (inside | ⟨same | inside, absent⟩)
    · exact .inr (.inl inside)
    · exact .inl same
    · exact .inr (.inr ⟨inside, absent⟩)

theorem splice_spec (unsorted sorted : List (K × Content)) (ordered : Ordered (· < ·) unsorted)
    (ordered' : Ordered (· < ·) sorted) : Spliced unsorted sorted (splice unsorted sorted) := by
  induction unsorted generalizing sorted with
  | nil => exact ⟨ordered', by simp [splice]⟩
  | cons u us ih =>
    have rest := (ordered_cons.mp ordered)
    induction sorted with
    | nil => exact (ih [] rest.2 ordered_nil).cons ordered (by simp) (by simp)
    | cons e es ihSorted =>
      have tail := (ordered_cons.mp ordered')
      simp only [splice, spliceItem]
      by_cases less : u.1 < e.1
      · rw [if_pos less]
        have later : ∀ e' ∈ e :: es, u.1 < e'.1 := by
          exact forall_mem_cons.mpr ⟨less, fun e' inside => lt_trans less (tail.1 e' inside)⟩
        refine (ih _ rest.2 ordered').cons ordered later ?_
        exact fun e' => ⟨fun inside => inside.1, fun inside => ⟨inside, (later e' inside).ne'⟩⟩
      rw [if_neg less]
      by_cases same : u.1 = e.1
      · rw [if_pos same]
        refine (ih es rest.2 tail.2).cons ordered (fun e' inside => same ▸ tail.1 e' inside) ?_
        intro e'
        rw [same, mem_cons]
        constructor
        · rintro ⟨rfl | inside, apart⟩
          · exact absurd rfl apart
          · exact inside
        · exact fun inside => ⟨.inr inside, ordered'.ne_head inside⟩
      · rw [if_neg same]
        have more : e.1 < u.1 := lt_of_le_of_ne (not_lt.mp less) (Ne.symm same)
        refine Spliced.keep (ihSorted tail.2) ordered' ?_
        exact forall_mem_cons.mpr ⟨more, fun u' inside => lt_trans more (rest.1 u' inside)⟩

variable (indexed : store.Indexed)

include indexed

/-- The unsorted items of a domain, sorted, as they go into the sorted list. -/
theorem dirtyItems_spliced (domain : Domain K) :
    Spliced ((store.unsortedCache.filter domain.mem).map
      (fun key => (key, (store.dirty.lookup key).bind CValue.content)))
      store.sortedCache (store.dirtyItems domain).sortedCache := by
  have distinct : (((store.unsortedCache.filter domain.mem).map
      (fun key => (key, (store.dirty.lookup key).bind CValue.content))).map Prod.fst).Nodup := by
    simpa [Function.comp_def] using indexed.nodup.filter domain.mem
  have spliced := splice_spec _ store.sortedCache (ordered_insertionSort _ distinct)
    indexed.ordered
  refine ⟨spliced.ordered, fun pair => ?_⟩
  have members := spliced.members pair
  simp only [(perm_insertionSort _ _).mem_iff] at members
  exact members

theorem mem_dirtyItems (domain : Domain K) (key : K) (value : Content) :
    (key, value) ∈ (store.dirtyItems domain).sortedCache ↔
      (key ∈ store.unsortedCache ∧ domain.mem key = true ∧
        (store.dirty.lookup key).map CValue.content = some value) ∨
      ((key, value) ∈ store.sortedCache ∧
        ¬(key ∈ store.unsortedCache ∧ domain.mem key = true)) := by
  have dirty : key ∈ store.unsortedCache → ((store.dirty.lookup key).bind CValue.content = value ↔
        (store.dirty.lookup key).map CValue.content = some value) := by
    intro inside
    obtain ⟨_, found⟩ := Option.isSome_iff_exists.mp (indexed.unsorted key inside)
    simp [found]
  rw [(dirtyItems_spliced indexed domain).members]
  simp only [mem_map, mem_filter, Prod.mk.injEq]
  constructor
  · rintro (⟨key', ⟨inside, inDomain⟩, rfl, same⟩ | ⟨inside, absent⟩)
    · exact .inl ⟨inside, inDomain, (dirty inside).mp same⟩
    refine .inr ⟨inside, ?_⟩
    rintro ⟨unsorted, inDomain⟩
    exact absent _ ⟨key, ⟨unsorted, inDomain⟩, rfl, rfl⟩
  · rintro (⟨inside, inDomain, same⟩ | ⟨inside, absent⟩)
    · exact .inl ⟨key, ⟨inside, inDomain⟩, rfl, (dirty inside).mpr same⟩
    refine .inr ⟨inside, ?_⟩
    rintro other ⟨key', moved, rfl, -⟩
    exact absent moved

theorem dirtyItems_indexed (domain : Domain K) : (store.dirtyItems domain).Indexed := by
  have still : ∀ key, key ∈ (store.dirtyItems domain).unsortedCache ↔
      key ∈ store.unsortedCache ∧ domain.mem key = false := by
    intro key
    simp [dirtyItems]
  refine ⟨(dirtyItems_spliced indexed domain).ordered, ?_, ?_, ?_, ?_, indexed.nodup.filter _⟩
  · intro key value inside outside
    rw [still] at outside
    rcases (mem_dirtyItems indexed domain key value).mp inside with moved | ⟨inside, rested⟩
    · exact moved.2.2
    refine indexed.fresh key value inside (fun unsorted => ?_)
    cases inDomain : domain.mem key with
    | false => exact outside ⟨unsorted, inDomain⟩
    | true => exact rested ⟨unsorted, inDomain⟩
  · intro key value inside
    rcases (mem_dirtyItems indexed domain key value).mp inside with moved | ⟨inside, -⟩
    · exact indexed.unsorted key moved.1
    · exact indexed.known key value inside
  · intro key found
    rw [still]
    obtain ⟨cacheValue, lookup⟩ := Option.isSome_iff_exists.mp found
    by_cases unsorted : key ∈ store.unsortedCache
    · cases inDomain : domain.mem key with
      | false => exact .inl ⟨unsorted, rfl⟩
      | true =>
        refine .inr ⟨cacheValue.content, (mem_dirtyItems indexed domain _ _).mpr (.inl ?_)⟩
        exact ⟨unsorted, inDomain, by rw [show store.dirty.lookup key = _ from lookup]; rfl⟩
    · obtain ⟨value, inside⟩ := (indexed.covered key found).resolve_left unsorted
      refine .inr ⟨value, (mem_dirtyItems indexed domain _ _).mpr (.inr ⟨inside, ?_⟩)⟩
      exact fun both => unsorted both.1
  · exact fun key inside => indexed.unsorted key ((still key).mp inside).1

/-- Inside the sorted domain the list shows what the dirty map holds. -/
theorem mem_dirtyItems_of_domain {domain : Domain K} {key : K} (inDomain : domain.mem key = true) (value : Content) :
    (key, value) ∈ (store.dirtyItems domain).sortedCache ↔
      (store.dirty.lookup key).map CValue.content = some value := by
  have after := dirtyItems_indexed indexed domain
  have settled : key ∉ (store.dirtyItems domain).unsortedCache := by
    simp [dirtyItems, inDomain]
  constructor
  · exact fun inside => after.fresh key value inside settled
  intro found
  have dirty : ((store.dirtyItems domain).dirty.lookup key).isSome := by
    cases lookup : store.dirty.lookup key with
    | none => simp [lookup] at found
    | some => simp [dirtyItems, lookup]
  obtain ⟨value', inside⟩ := (after.covered key dirty).resolve_left settled
  have same := (after.fresh key value' inside settled).symm.trans found
  rw [← Option.some.inj same]
  exact inside

end CacheKV

end Exchain.Store
