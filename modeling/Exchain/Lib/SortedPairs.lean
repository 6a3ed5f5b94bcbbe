import Mathlib.Data.List.Sort

namespace SortedPairs

open List

variable {κ ν : Type} {lt : κ → κ → Prop}

def Ordered (lt : κ → κ → Prop) (l : List (κ × ν)) : Prop := l.Pairwise (fun a b => lt a.1 b.1)

@[simp] theorem ordered_nil : Ordered lt ([] : List (κ × ν)) := List.Pairwise.nil

variable {l : List (κ × ν)}

@[simp] theorem ordered_cons {p : κ × ν} :
    Ordered lt (p :: l) ↔ (∀ q ∈ l, lt p.1 q.1) ∧ Ordered lt l := pairwise_cons

theorem Ordered.filter (ordered : Ordered lt l) (keep : κ × ν → Bool) :
    Ordered lt (l.filter keep) := List.Pairwise.filter keep ordered

theorem Ordered.reverse (ordered : Ordered lt l) :
    Ordered (fun a b => lt b a) l.reverse := pairwise_reverse.mpr ordered

section

variable [IsStrictOrder κ lt] {l : List (κ × ν)}

theorem Ordered.ne_head {p q : κ × ν} (ordered : Ordered lt (p :: l))
    (inside : q ∈ l) : q.1 ≠ p.1 := by
  intro same
  have above := (ordered_cons.mp ordered).1 q inside
  rw [same] at above
  exact irrefl_of lt p.1 above

theorem Ordered.mem_tail_iff {p : κ × ν} (ordered : Ordered lt (p :: l)) (q : κ × ν) :
    q ∈ l ↔ q ∈ p :: l ∧ q.1 ≠ p.1 := by
  refine ⟨fun inside => ⟨mem_cons_of_mem p inside, ordered.ne_head inside⟩, ?_⟩
  rintro ⟨inside, apart⟩
  rcases mem_cons.mp inside with rfl | inside
  · exact absurd rfl apart
  · exact inside

theorem mem_iff_of_before {key : κ} (before : ∀ q ∈ l, lt key q.1) (q : κ × ν) :
    q ∈ l ↔ q ∈ l ∧ q.1 ≠ key := by
  refine ⟨fun inside => ⟨inside, ?_⟩, And.left⟩
  rintro rfl
  exact irrefl_of lt _ (before q inside)

theorem Ordered.before_all {p : κ × ν} (ordered : Ordered lt (p :: l)) {key : κ}
    (before : lt key p.1) : ∀ q ∈ p :: l, lt key q.1 :=
  forall_mem_cons.mpr ⟨before, fun q inside =>
    trans_of lt before ((ordered_cons.mp ordered).1 q inside)⟩

theorem Ordered.unique (ordered : Ordered lt l) {k : κ} {v w : ν}
    (first : (k, v) ∈ l) (second : (k, w) ∈ l) : v = w := by
  induction l with
  | nil => simp at first
  | cons p rest ih =>
    rcases mem_cons.mp first with rfl | inFirst <;>
      rcases mem_cons.mp second with same | inSecond
    · simpa using same.symm
    · exact absurd rfl (ordered.ne_head (q := (k, w)) inSecond)
    · subst same
      exact absurd rfl (ordered.ne_head (q := (k, v)) inFirst)
    · exact ih (ordered_cons.mp ordered).2 inFirst inSecond

theorem Ordered.ext {m : List (κ × ν)} (ordered : Ordered lt l) (ordered' : Ordered lt m)
    (same : ∀ p, p ∈ l ↔ p ∈ m) : l = m := by
  exact List.Pairwise.eq_of_mem_iff ordered ordered' same

end

/-- Sorting by key, when no key occurs twice. -/
theorem ordered_insertionSort [LinearOrder κ] (l : List (κ × ν)) (nodup : (l.map Prod.fst).Nodup) :
    Ordered (· < ·) (l.insertionSort (fun a b => a.1 ≤ b.1)) := by
  have sorted := pairwise_insertionSort (fun a b : κ × ν => a.1 ≤ b.1) l
  have distinct : ((l.insertionSort (fun a b => a.1 ≤ b.1)).map Prod.fst).Nodup :=
    ((perm_insertionSort _ l).map Prod.fst).nodup_iff.mpr nodup
  rw [nodup_iff_pairwise_ne, pairwise_map] at distinct
  exact (sorted.and distinct).imp (fun both => lt_of_le_of_ne both.1 both.2)

section

variable {κ : Type} [LinearOrder κ]

/-- The list with a key mapped to a value, at its place. -/
def put (k : κ) (v : ν) (l : List (κ × ν)) : List (κ × ν) :=
  l.filter (fun p => p.1 < k) ++ (k, v) :: l.filter (fun p => k < p.1)

def cut (k : κ) (l : List (κ × ν)) : List (κ × ν) := l.filter (fun p => p.1 ≠ k)

variable {k : κ} {l : List (κ × ν)}

theorem put_append_left {r : List (κ × ν)} (v : ν) (above : ∀ p ∈ r, k < p.1) :
    put k v (l ++ r) = put k v l ++ r := by
  have before : r.filter (fun p => p.1 < k) = [] :=
    filter_eq_nil_iff.mpr fun p inside => by simpa using (above p inside).le
  have after : r.filter (fun p => k < p.1) = r :=
    filter_eq_self.mpr fun p inside => by simpa using above p inside
  simp [put, before, after]

theorem put_append_right {r : List (κ × ν)} (v : ν) (below : ∀ p ∈ l, p.1 < k) :
    put k v (l ++ r) = l ++ put k v r := by
  have before : l.filter (fun p => p.1 < k) = l :=
    filter_eq_self.mpr fun p inside => by simpa using below p inside
  have after : l.filter (fun p => k < p.1) = [] :=
    filter_eq_nil_iff.mpr fun p inside => by simpa using (below p inside).le
  simp [put, before, after]

theorem cut_append (k : κ) (l r : List (κ × ν)) : cut k (l ++ r) = cut k l ++ cut k r := by
  simp [cut]

theorem cut_eq_self (absent : ∀ p ∈ l, p.1 ≠ k) : cut k l = l :=
  filter_eq_self.mpr fun p inside => by simpa using absent p inside

theorem ordered_put (ordered : Ordered (· < ·) l) (k : κ) (v : ν) :
    Ordered (· < ·) (put k v l) := by
  refine pairwise_append.mpr ⟨ordered.filter _, ordered_cons.mpr ⟨?_, ordered.filter _⟩, ?_⟩
  · intro p inside
    simpa using (mem_filter.mp inside).2
  intro p low q high
  have lower : p.1 < k := by simpa using (mem_filter.mp low).2
  rcases mem_cons.mp high with rfl | high
  · exact lower
  · have higher : k < q.1 := by simpa using (mem_filter.mp high).2
    exact lower.trans higher

theorem lookup_filter_key (keep : κ → Bool) (k : κ) (l : List (κ × ν)) :
    (l.filter (fun p => keep p.1)).lookup k = if keep k then l.lookup k else none := by
  induction l with
  | nil => simp
  | cons p rest ih =>
    obtain ⟨a, _⟩ := p
    by_cases same : k = a
    · subst same
      cases kept : keep k
      · simpa [kept] using ih
      · simp [kept]
    · have apart : (k == a) = false := by simpa using same
      cases kept : keep a <;> simp [lookup_cons, kept, apart, ih]

theorem lookup_put (k k' : κ) (v : ν) (l : List (κ × ν)) :
    (put k v l).lookup k' = if k' = k then some v else l.lookup k' := by
  rw [put, lookup_append, lookup_filter_key (fun a => decide (a < k)), lookup_cons,
    lookup_filter_key (fun a => decide (k < a))]
  rcases lt_trichotomy k' k with less | rfl | more
  · have apart : (k' == k) = false := by simpa using less.ne
    simp [less, less.ne, less.not_gt, apart]
  · simp
  · have apart : (k' == k) = false := by simpa using more.ne'
    simp [more, more.ne', more.not_gt, apart]

theorem lookup_cut (k k' : κ) (l : List (κ × ν)) :
    (cut k l).lookup k' = if k' = k then none else l.lookup k' := by
  rw [cut, lookup_filter_key (fun a => decide (a ≠ k))]
  by_cases same : k' = k <;> simp [same]

theorem mem_of_lookup {v : ν} (found : l.lookup k = some v) : (k, v) ∈ l := by
  obtain ⟨_, _, rfl, -⟩ := lookup_eq_some_iff.mp found
  simp

theorem Ordered.mem_iff_lookup (ordered : Ordered (· < ·) l) (p : κ × ν) :
    p ∈ l ↔ l.lookup p.1 = some p.2 := by
  refine ⟨fun inside => ?_, mem_of_lookup⟩
  cases found : l.lookup p.1 with
  | none =>
    rw [lookup_eq_none_iff] at found
    simpa using found p inside
  | some v => rw [ordered.unique (mem_of_lookup found) inside]

theorem lookup_eq_none_of (absent : ∀ p ∈ l, p.1 ≠ k) : l.lookup k = none := by
  rw [lookup_eq_none_iff]
  intro p inside
  simpa using (absent p inside).symm

end

variable [IsStrictTotalOrder κ lt]

theorem lt_of_not_lt {a b : κ} (notLess : ¬ lt a b) (apart : a ≠ b) : lt b a := by
  rcases trichotomous_of lt a b with less | same | more
  · exact absurd less notLess
  · exact absurd same apart
  · exact more

variable [DecidableRel lt]

/-- How many entries stand before a key. -/
def rank (lt : κ → κ → Prop) [DecidableRel lt] (l : List (κ × ν)) (key : κ) : Nat :=
  (l.filter (fun p => decide (lt p.1 key))).length

variable {m : List (κ × ν)} {p : κ × ν} (ordered : Ordered lt (p :: l))

include ordered

theorem rank_head : rank lt (p :: l) p.1 = 0 := by
  have none_before : ∀ q ∈ p :: l, ¬ lt q.1 p.1 := by
    intro q inside
    rcases mem_cons.mp inside with rfl | inside
    · exact irrefl_of lt q.1
    · exact asymm_of lt ((ordered_cons.mp ordered).1 q inside)
  rw [rank, length_eq_zero_iff]
  simpa using none_before

theorem rank_of_lt_head {key : κ} (less : lt key p.1) : rank lt (p :: l) key = 0 := by
  have none_before : ∀ q ∈ p :: l, ¬ lt q.1 key :=
    fun q inside => asymm_of lt (ordered.before_all less q inside)
  rw [rank, length_eq_zero_iff]
  simpa using none_before

omit ordered in
omit [IsStrictTotalOrder κ lt] in
theorem rank_cons_of_lt {key : κ} (less : lt p.1 key) :
    rank lt (p :: l) key = rank lt l key + 1 := by
  simp [rank, less]

/-- When the heads differ, one of their keys tells the lists apart, and nothing of the first list
stands before it. -/
theorem heads_differ {q : κ × ν} (ordered' : Ordered lt (q :: m)) (differ : p ≠ q) :
    ∃ k v, ¬((k, v) ∈ p :: l ↔ (k, v) ∈ q :: m) ∧ rank lt (p :: l) k = 0 := by
  rcases trichotomous_of lt p.1 q.1 with less | same | more
  · refine ⟨p.1, p.2, ?_, rank_head ordered⟩
    intro iff
    rcases mem_cons.mp (iff.mp mem_cons_self) with eq | inside
    · exact differ eq
    · have above := trans_of lt less ((ordered_cons.mp ordered').1 _ inside)
      exact irrefl_of lt p.1 above
  · refine ⟨p.1, p.2, ?_, rank_head ordered⟩
    intro iff
    rcases mem_cons.mp (iff.mp mem_cons_self) with eq | inside
    · exact differ eq
    · exact ordered'.ne_head inside same
  · refine ⟨q.1, q.2, ?_, rank_of_lt_head ordered more⟩
    intro iff
    rcases mem_cons.mp (iff.mpr mem_cons_self) with eq | inside
    · exact differ eq.symm
    · have above := trans_of lt more ((ordered_cons.mp ordered).1 _ inside)
      exact irrefl_of lt q.1 above

omit [IsStrictTotalOrder κ lt] [DecidableRel lt] in
/-- Below a common head, the lists can only differ behind it. -/
theorem lt_of_differ
    (ordered' : Ordered lt (p :: m)) {k : κ} {v : ν} (differ : ¬((k, v) ∈ l ↔ (k, v) ∈ m)) :
    lt p.1 k := by
  by_cases inside : (k, v) ∈ l
  · exact (ordered_cons.mp ordered).1 _ inside
  have inside' : (k, v) ∈ m := by
    by_contra outside
    exact differ (iff_of_false inside outside)
  exact (ordered_cons.mp ordered').1 _ inside'

omit ordered

/-- The first n entries of two ordered lists agree exactly if every key on
which the lists differ comes after n entries. -/
theorem take_eq_take_iff (ordered : Ordered lt l) (ordered' : Ordered lt m) (n : Nat) :
    l.take n = m.take n ↔ ∀ k v, ¬((k, v) ∈ l ↔ (k, v) ∈ m) → n ≤ rank lt l k := by
  induction n generalizing l m with
  | zero => simp
  | succ n ih =>
    match l, m with
    | [], [] => simp
    | [], q :: m =>
      simp only [take_nil, take_succ_cons, reduceCtorEq, false_iff]
      intro late
      have := late q.1 q.2 (by simp)
      simp [rank] at this
    | p :: l, [] =>
      simp only [take_nil, take_succ_cons, reduceCtorEq, false_iff]
      intro late
      have := late p.1 p.2 (by simp)
      rw [rank_head ordered] at this
      omega
    | p :: l, q :: m =>
      by_cases same : p = q
      · subst same
        rw [take_succ_cons, take_succ_cons, List.cons.injEq,
          ih (ordered_cons.mp ordered).2 (ordered_cons.mp ordered').2]
        constructor
        · rintro ⟨-, late⟩ k v differ
          have inTail : ¬((k, v) ∈ l ↔ (k, v) ∈ m) := by
            intro iff
            apply differ
            simp [iff]
          rw [rank_cons_of_lt (lt_of_differ ordered ordered' inTail)]
          have := late k v inTail
          omega
        intro late
        refine ⟨rfl, ?_⟩
        intro k v differ
        have above := lt_of_differ ordered ordered' differ
        have fresh : (k, v) ≠ p := by
          rintro rfl
          exact irrefl_of lt _ above
        have := late k v (by simpa [fresh] using differ)
        rw [rank_cons_of_lt above] at this
        omega
      · have heads : (p :: l).take (n + 1) ≠ (q :: m).take (n + 1) := by
          intro eq
          exact same (List.cons.inj eq).1
        refine iff_of_false heads ?_
        intro late
        obtain ⟨k, v, differ, _⟩ := heads_differ ordered ordered' same
        have := late k v differ
        omega

end SortedPairs
