import Exchain.Store.CacheKV

/- What the merge iterator visits: the cache's pairs, and the parent's pairs
under keys the cache does not have, in the order of the keys. -/

namespace Exchain.Store

open SortedPairs List

variable {K : Type} [LinearOrder K]

instance (ascending : Bool) : IsStrictTotalOrder K (precedes ascending) where
  irrefl a := by cases ascending <;> simp [precedes]
  trans a b c := by
    cases ascending
    · exact fun first second => lt_trans second first
    · exact fun first second => lt_trans first second
  trichotomous a b := by
    cases ascending
    · exact fun notMore notLess => le_antisymm (not_lt.mp notMore) (not_lt.mp notLess)
    · exact fun notLess notMore => le_antisymm (not_lt.mp notMore) (not_lt.mp notLess)

namespace CacheMergeIterator

/-- A pair the iterator has still to visit. -/
def Shown (it : CacheMergeIterator K) (pair : K × Bytes) : Prop :=
  (pair.1, some pair.2) ∈ it.cache ∨ (pair ∈ it.parent ∧ ∀ value, (pair.1, value) ∉ it.cache)

structure Sorted (ascending : Bool) (it : CacheMergeIterator K) : Prop where
  parent : Ordered (precedes ascending) it.parent
  cache : Ordered (precedes ascending) it.cache

/-- No delete stands in front: the next pair exists unless nothing is left. -/
def Settled (ascending : Bool) : CacheMergeIterator K → Prop
  | ⟨[], (_, none) :: _⟩ => False
  | ⟨p :: _, (key, none) :: _⟩ => precedes ascending p.1 key
  | _ => True

structure Skipped (ascending : Bool) (it skipped : CacheMergeIterator K) : Prop where
  sorted : Sorted ascending skipped
  settled : Settled ascending skipped
  shown : ∀ pair, Shown skipped pair ↔ Shown it pair
  shorter : skipped.parent.length + skipped.cache.length ≤ it.parent.length + it.cache.length

variable {ascending : Bool} {it : CacheMergeIterator K} {key : K} {p : K × Bytes} {ps : List (K × Bytes)}
  {rest : List (K × Content)}

theorem skipCacheDeletes_spec (cache : List (K × Content))
    (ordered : Ordered (precedes ascending) cache) :
    Skipped ascending ⟨[], cache⟩ ⟨[], skipCacheDeletes cache⟩ := by
  induction cache with
  | nil => exact ⟨⟨ordered_nil, ordered⟩, trivial, fun _ => Iff.rfl, Nat.le_refl _⟩
  | cons c rest ih =>
    obtain ⟨_, value⟩ := c
    cases value with
    | some => exact ⟨⟨ordered_nil, ordered⟩, trivial, fun _ => Iff.rfl, Nat.le_refl _⟩
    | none =>
      have rested := ih (ordered_cons.mp ordered).2
      refine ⟨rested.sorted, rested.settled, ?_, ?_⟩
      · intro pair
        rw [skipCacheDeletes, rested.shown pair]
        simp [Shown]
      · have := rested.shorter
        simp only [skipCacheDeletes, length_cons] at this ⊢
        omega

/-- Dropping a delete together with the parent's pair under the same key. -/
theorem shown_drop_both

    (sorted : Sorted ascending ⟨p :: ps, (key, none) :: rest⟩) (same : p.1 = key)
    (pair : K × Bytes) :
    Shown ⟨ps, rest⟩ pair ↔ Shown ⟨p :: ps, (key, none) :: rest⟩ pair := by
  have later : ∀ q ∈ ps, q.1 ≠ key := fun q inside => same ▸ sorted.parent.ne_head inside
  have apart : pair ∈ ps → pair.1 ≠ key := later pair
  simp only [Shown, mem_cons, Prod.mk.injEq, reduceCtorEq, and_false, false_or, not_or]
  constructor
  · rintro (cached | ⟨inside, uncached⟩)
    · exact .inl cached
    · exact .inr ⟨.inr inside, fun value => ⟨fun eq => apart inside eq.1, uncached value⟩⟩
  · rintro (cached | ⟨rfl | inside, uncached⟩)
    · exact .inl cached
    · exact absurd ⟨same, rfl⟩ (uncached none).1
    · exact .inr ⟨inside, fun value => (uncached value).2⟩

/-- Dropping a delete that stands before everything of the parent. -/
theorem shown_drop_delete

    (sorted : Sorted ascending ⟨p :: ps, (key, none) :: rest⟩) (before : precedes ascending key p.1)
    (pair : K × Bytes) :
    Shown ⟨p :: ps, rest⟩ pair ↔ Shown ⟨p :: ps, (key, none) :: rest⟩ pair := by
  have apart : pair ∈ p :: ps → pair.1 ≠ key := by
    rintro inside rfl
    rcases mem_cons.mp inside with rfl | inside
    · exact irrefl_of (precedes ascending) _ before
    · exact irrefl_of (precedes ascending) _
        (trans_of (precedes ascending) before ((ordered_cons.mp sorted.parent).1 _ inside))
  simp only [Shown, mem_cons, Prod.mk.injEq, reduceCtorEq, and_false, false_or, not_or]
  rw [mem_cons] at apart
  constructor
  · rintro (cached | ⟨inside, uncached⟩)
    · exact .inl cached
    · exact .inr ⟨inside, fun value => ⟨fun eq => apart inside eq.1, uncached value⟩⟩
  · rintro (cached | ⟨inside, uncached⟩)
    · exact .inl cached
    · exact .inr ⟨inside, fun value => (uncached value).2⟩

theorem skipUntilExistsOrInvalid_spec (parent : List (K × Bytes))
    (cache : List (K × Content)) (sorted : Sorted ascending ⟨parent, cache⟩) :
    Skipped ascending ⟨parent, cache⟩ (skipUntilExistsOrInvalid ascending parent cache) := by
  induction cache generalizing parent with
  | nil =>
    cases parent with
    | nil => exact skipCacheDeletes_spec [] ordered_nil
    | cons p ps => exact ⟨sorted, trivial, fun _ => Iff.rfl, Nat.le_refl _⟩
  | cons c rest ih =>
    obtain ⟨key, value⟩ := c
    cases parent with
    | nil => exact skipCacheDeletes_spec _ sorted.cache
    | cons p ps =>
      by_cases before : precedes ascending p.1 key
      · have stays : skipUntilExistsOrInvalid ascending (p :: ps) ((key, value) :: rest) =
            ⟨p :: ps, (key, value) :: rest⟩ := by
          cases value <;> simp only [skipUntilExistsOrInvalid, if_pos before]
        rw [stays]
        refine ⟨sorted, ?_, fun _ => Iff.rfl, Nat.le_refl _⟩
        cases value with
        | none => exact before
        | some => trivial
      cases value with
      | some =>
        simp only [skipUntilExistsOrInvalid, if_neg before]
        exact ⟨sorted, trivial, fun _ => Iff.rfl, Nat.le_refl _⟩
      | none =>
        simp only [skipUntilExistsOrInvalid, if_neg before]
        have cacheRest := (ordered_cons.mp sorted.cache).2
        by_cases same : p.1 = key
        · rw [if_pos same]
          have rested := ih ps ⟨(ordered_cons.mp sorted.parent).2, cacheRest⟩
          refine ⟨rested.sorted, rested.settled, ?_, ?_⟩
          · exact fun pair => (rested.shown pair).trans (shown_drop_both sorted same pair)
          have := rested.shorter
          simp only [length_cons] at this ⊢
          omega
        rw [if_neg same]
        have rested := ih (p :: ps) ⟨sorted.parent, cacheRest⟩
        have after := lt_of_not_lt before same
        refine ⟨rested.sorted, rested.settled, ?_, ?_⟩
        · exact fun pair => (rested.shown pair).trans (shown_drop_delete sorted after pair)
        have := rested.shorter
        simp only [length_cons] at this ⊢
        omega

/-- What one call of Next does to an iterator in front of a pair. -/
structure Advanced (ascending : Bool) (it : CacheMergeIterator K) (pair : K × Bytes)
    (it' : CacheMergeIterator K) : Prop where
  sorted : Sorted ascending it'
  shown : ∀ q, Shown it q ↔ q = pair ∨ Shown it' q
  later : ∀ q, Shown it' q → precedes ascending pair.1 q.1
  shorter : it'.parent.length + it'.cache.length < it.parent.length + it.cache.length

theorem current_none
    (settled : Settled ascending it) (exhausted : current ascending it = none) (pair : K × Bytes) :
    ¬Shown it pair := by
  obtain ⟨parent, cache⟩ := it
  match parent, cache with
  | [], [] => simp [Shown]
  | [], (key, none) :: rest => exact settled.elim
  | [], (key, some bytes) :: rest => simp [current] at exhausted
  | p :: ps, [] => simp [current] at exhausted
  | p :: ps, (key, none) :: rest =>
    have before : precedes ascending p.1 key := settled
    simp [current, before] at exhausted
  | p :: ps, (key, some bytes) :: rest =>
    simp only [current] at exhausted
    split at exhausted <;> simp at exhausted

theorem next_parent {cache : List (K × Content)} (sorted : Sorted ascending ⟨p :: ps, cache⟩)
    (before : ∀ c ∈ cache, precedes ascending p.1 c.1) :
    Advanced ascending ⟨p :: ps, cache⟩ p ⟨ps, cache⟩ := by
  have uncached : ∀ value, (p.1, value) ∉ cache := fun value inside =>
    irrefl_of (precedes ascending) p.1 (before _ inside)
  refine ⟨⟨(ordered_cons.mp sorted.parent).2, sorted.cache⟩, ?_, ?_, by simp⟩
  · intro q
    simp only [Shown, mem_cons]
    constructor
    · rintro (cached | ⟨rfl | inside, fresh⟩)
      · exact .inr (.inl cached)
      · exact .inl rfl
      · exact .inr (.inr ⟨inside, fresh⟩)
    · rintro (rfl | cached | ⟨inside, fresh⟩)
      · exact .inr ⟨.inl rfl, uncached⟩
      · exact .inl cached
      · exact .inr ⟨.inr inside, fresh⟩
  · rintro q (cached | ⟨inside, -⟩)
    · exact before _ cached
    · exact (ordered_cons.mp sorted.parent).1 q inside

/-- The cache's first pair, when nothing of the parent comes before it; the parent's pair under its
key goes with it. -/
theorem next_cache {bytes : Bytes} {parent parent' : List (K × Bytes)}
    (sorted : Sorted ascending ⟨parent, (key, some bytes) :: rest⟩)
    (fewer : parent'.length ≤ parent.length) (ordered : Ordered (precedes ascending) parent')
    (members : ∀ q, q ∈ parent' ↔ q ∈ parent ∧ q.1 ≠ key)
    (after : ∀ q ∈ parent', precedes ascending key q.1) :
    Advanced ascending ⟨parent, (key, some bytes) :: rest⟩ (key, bytes) ⟨parent', rest⟩ := by
  have later := (ordered_cons.mp sorted.cache).1
  refine ⟨⟨ordered, (ordered_cons.mp sorted.cache).2⟩, ?_, ?_, ?_⟩
  · intro q
    simp only [Shown, mem_cons, members, Prod.mk.injEq, Option.some.injEq, not_or]
    constructor
    · rintro ((⟨same, value⟩ | cached) | ⟨inside, fresh⟩)
      · exact .inl (Prod.ext same value)
      · exact .inr (.inl cached)
      · refine .inr (.inr ⟨⟨inside, ?_⟩, fun value => (fresh value).2⟩)
        exact fun same => (fresh (some bytes)).1 ⟨same, rfl⟩
    · rintro (rfl | cached | ⟨⟨inside, apart⟩, fresh⟩)
      · exact .inl (.inl ⟨rfl, rfl⟩)
      · exact .inl (.inr cached)
      · exact .inr ⟨inside, fun value => ⟨fun eq => apart eq.1, fresh value⟩⟩
  · rintro q (cached | ⟨inside, -⟩)
    · exact later _ cached
    · exact after q inside
  · simp only [length_cons]
    omega

variable (sorted : Sorted ascending it)
include sorted

theorem next_spec {pair : K × Bytes} (found : current ascending it = some pair) :
    Advanced ascending it pair (next ascending it) := by
  obtain ⟨parent, cache⟩ := it
  match parent, cache with
  | [], [] => simp [current] at found
  | [], (key, none) :: rest => simp [current] at found
  | [], (key, some bytes) :: rest =>
    simp only [current, Option.map_some, Option.some.injEq] at found
    subst found
    exact next_cache sorted (Nat.le_refl _) ordered_nil (by simp) (by simp)
  | p :: ps, [] =>
    simp only [current, Option.some.injEq] at found
    subst found
    exact next_parent sorted (by simp)
  | p :: ps, (key, value) :: rest =>
    by_cases before : precedes ascending p.1 key
    · simp only [current, if_pos before, Option.some.injEq] at found
      subst found
      rw [next, if_pos before]
      exact next_parent sorted (sorted.cache.before_all before)
    cases value with
    | none => simp [current, if_neg before] at found
    | some =>
      simp only [current, if_neg before, Option.map_some, Option.some.injEq] at found
      subst found
      have tail := ordered_cons.mp sorted.parent
      rw [next, if_neg before]
      by_cases same : p.1 = key
      · subst same
        rw [if_pos rfl]
        exact next_cache sorted (by simp) tail.2 sorted.parent.mem_tail_iff tail.1
      · rw [if_neg same]
        have after := sorted.parent.before_all (lt_of_not_lt before same)
        exact next_cache sorted (Nat.le_refl _) sorted.parent (mem_iff_of_before after) after

omit sorted in
theorem read_spec (n : Nat) (it : CacheMergeIterator K)
    (sorted : Sorted ascending it) (enough : it.parent.length + it.cache.length ≤ n) :
    Ordered (precedes ascending) (read ascending n it) ∧
      ∀ pair, pair ∈ read ascending n it ↔ Shown it pair := by
  induction n generalizing it with
  | zero =>
    have emptyParent : it.parent = [] := length_eq_zero_iff.mp (by omega)
    have emptyCache : it.cache = [] := length_eq_zero_iff.mp (by omega)
    simp [read, Shown, emptyParent, emptyCache]
  | succ n ih =>
    have skipped := skipUntilExistsOrInvalid_spec it.parent it.cache sorted
    rw [read]
    change Skipped ascending it (skip ascending it) at skipped
    cases found : current ascending (skip ascending it) with
    | none =>
      refine ⟨ordered_nil, fun pair => ?_⟩
      rw [← skipped.shown pair]
      simp [current_none skipped.settled found pair]
    | some =>
      have advanced := next_spec skipped.sorted found
      have shorter := skipped.shorter
      have dropped := advanced.shorter
      obtain ⟨ordered, members⟩ := ih _ advanced.sorted (by omega)
      constructor
      · refine ordered_cons.mpr ⟨?_, ordered⟩
        exact fun q inside => advanced.later q ((members q).mp inside)
      · intro pair
        rw [mem_cons, members, ← skipped.shown pair, advanced.shown pair]

theorem ordered_items : Ordered (precedes ascending) (items ascending it) :=
  (read_spec _ it sorted (Nat.le_refl _)).1

theorem mem_items (pair : K × Bytes) : pair ∈ items ascending it ↔ Shown it pair :=
  (read_spec _ it sorted (Nat.le_refl _)).2 pair

end CacheMergeIterator

end Exchain.Store
