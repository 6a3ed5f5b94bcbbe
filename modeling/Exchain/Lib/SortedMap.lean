import Exchain.Lib.SortedPairs
import Mathlib.Algebra.BigOperators.Group.Finset.Basic
import Mathlib.Algebra.Order.BigOperators.Group.List
import Mathlib.Algebra.Order.Group.Basic
import Mathlib.Tactic.Abel

/-! Ordered key-value tables: a list of pairs together with the proof that its keys increase. -/

structure SortedMap (κ ν : Type) [LinearOrder κ] where
  pairs : List (κ × ν)
  ordered : SortedPairs.Ordered (· < ·) pairs

namespace SortedMap

open SortedPairs List

variable {κ ν : Type} [LinearOrder κ]

def empty : SortedMap κ ν := ⟨[], ordered_nil⟩

instance : EmptyCollection (SortedMap κ ν) := ⟨empty⟩

def get (m : SortedMap κ ν) (k : κ) : Option ν := m.pairs.lookup k

def set (m : SortedMap κ ν) (k : κ) (v : ν) : SortedMap κ ν :=
  ⟨put k v m.pairs, ordered_put m.ordered k v⟩

def delete (m : SortedMap κ ν) (k : κ) : SortedMap κ ν := ⟨cut k m.pairs, m.ordered.filter _⟩

def keys (m : SortedMap κ ν) : List κ := m.pairs.map Prod.fst

def values (m : SortedMap κ ν) : List ν := m.pairs.map Prod.snd

@[simp] theorem get_empty (k : κ) : (∅ : SortedMap κ ν).get k = none := rfl

variable (m : SortedMap κ ν)

theorem get_set (k k' : κ) (v : ν) :
    (m.set k v).get k' = if k' = k then some v else m.get k' := lookup_put k k' v m.pairs

theorem get_delete (k k' : κ) :
    (m.delete k).get k' = if k' = k then none else m.get k' := lookup_cut k k' m.pairs

@[simp] theorem get_set_self (k : κ) (v : ν) : (m.set k v).get k = some v := by
  simp [get_set]

variable {k k' : κ}

theorem get_set_ne (v : ν) (differ : k' ≠ k) : (m.set k v).get k' = m.get k' := by
  simp [get_set, differ]

@[simp] theorem get_delete_self (k : κ) : (m.delete k).get k = none := by
  simp [get_delete]

theorem get_delete_ne (differ : k' ≠ k) : (m.delete k).get k' = m.get k' := by
  simp [get_delete, differ]

/-- What holds of a written entry and of the others holds of every entry. -/
theorem forall_set {m : SortedMap κ ν} {v : ν} {P : κ → ν → Prop} (here : P k v)
    (others : ∀ k', k' ≠ k → ∀ w, m.get k' = some w → P k' w) :
    ∀ k' w, (m.set k v).get k' = some w → P k' w := by
  intro k' w found
  rw [get_set] at found
  split at found
  case isTrue same =>
    cases found
    exact same ▸ here
  case isFalse away => exact others k' away w found

theorem get_delete_eq_some {m : SortedMap κ ν} {v : ν} :
    (m.delete k).get k' = some v ↔ k' ≠ k ∧ m.get k' = some v := by
  rw [get_delete]
  split <;> simp_all

theorem mem_pairs (k : κ) (v : ν) : (k, v) ∈ m.pairs ↔ m.get k = some v :=
  m.ordered.mem_iff_lookup (k, v)

theorem mem_keys (k : κ) : k ∈ m.keys ↔ ∃ v, m.get k = some v := by
  simp only [keys, mem_map, Prod.exists, exists_and_right, exists_eq_right, mem_pairs]

theorem nodup_keys : m.keys.Nodup :=
  pairwise_map.mpr (m.ordered.imp fun less => less.ne)

/-- A table is known by what it answers. -/
theorem ext_get {m m' : SortedMap κ ν} (same : ∀ k, m.get k = m'.get k) : m = m' := by
  have equal : m.pairs = m'.pairs := by
    apply Ordered.ext m.ordered m'.ordered
    intro p
    rw [mem_pairs m p.1 p.2, mem_pairs m' p.1 p.2, same]
  cases m
  cases m'
  cases equal
  rfl

theorem set_get_self {v : ν} (found : m.get k = some v) : m.set k v = m := by
  apply ext_get
  intro k'
  by_cases same : k' = k
  · rw [same, get_set_self, found]
  · rw [get_set_ne m v same]

theorem set_set (k : κ) (v w : ν) : (m.set k v).set k w = m.set k w := by
  apply ext_get
  intro k'
  rw [get_set, get_set, get_set]
  split
  · rfl
  · rfl

/-- Entries of one table written into another one. -/
theorem get_foldl_set {β : Type} {t : SortedMap κ ν} {key : β → κ} {value : β → ν} {l : List β}
    (entries : ∀ b ∈ l, t.get (key b) = some (value b)) {m : SortedMap κ ν}
    (known : k ∈ l.map key ∨ m.get k = t.get k) :
    (l.foldl (fun m b => m.set (key b) (value b)) m).get k = t.get k := by
  induction l generalizing m with
  | nil => exact known.resolve_left not_mem_nil
  | cons b rest ih =>
    apply ih fun c inside => entries c (mem_cons_of_mem _ inside)
    by_cases same : k = key b
    · right
      rw [same, get_set_self, entries b mem_cons_self]
    · rw [get_set_ne m _ same]
      exact known.imp_left (mem_of_ne_of_mem same)

section

variable {A : Type} [AddCommGroup A]

/-- A quantity added up over all entries. -/
def sum (m : SortedMap κ ν) (f : κ → ν → A) : A := (m.pairs.map fun p => f p.1 p.2).sum

@[simp] theorem sum_empty (f : κ → ν → A) : (∅ : SortedMap κ ν).sum f = 0 := rfl

/-- The sum over any finite set of keys that has those of the table. -/
theorem sum_eq_sum_finset (m : SortedMap κ ν) (f : κ → ν → A) (keys : Finset κ)
    (inside : ∀ k ∈ m.keys, k ∈ keys) : m.sum f = ∑ k ∈ keys, (m.get k).elim 0 (f k) := by
  have listed : m.sum f = (m.keys.map fun k => (m.get k).elim 0 (f k)).sum := by
    rw [sum, SortedMap.keys, map_map]
    congr 1
    apply map_congr_left
    intro p member
    rw [Function.comp_apply, (mem_pairs m p.1 p.2).mp member, Option.elim_some]
  rw [listed, ← sum_toFinset _ m.nodup_keys]
  apply Finset.sum_subset
  · intro k member
    exact inside k (mem_toFinset.mp member)
  intro k _ absent
  cases found : m.get k with
  | none => rfl
  | some v => exact absurd (mem_toFinset.mpr ((mem_keys m k).mpr ⟨v, found⟩)) absent

/-- The entry of one key written or deleted. -/
theorem sum_update {m m' : SortedMap κ ν} {new : Option ν}
    (get : ∀ k', m'.get k' = if k' = k then new else m.get k') (f : κ → ν → A) :
    m'.sum f = m.sum f - (m.get k).elim 0 (f k) + new.elim 0 (f k) := by
  let keys := insert k (m.keys.toFinset ∪ m'.keys.toFinset)
  have old := sum_eq_sum_finset m f keys fun k' member => by simp [keys, member]
  have now := sum_eq_sum_finset m' f keys fun k' member => by simp [keys, member]
  have others : ∀ k' ∈ keys.erase k, (m'.get k').elim 0 (f k') = (m.get k').elim 0 (f k') := by
    intro k' member
    rw [get, if_neg (Finset.ne_of_mem_erase member)]
  have here : k ∈ keys := Finset.mem_insert_self k _
  rw [old, now, ← Finset.add_sum_erase keys _ here, ← Finset.add_sum_erase keys _ here,
    Finset.sum_congr rfl others, get, if_pos rfl]
  abel

theorem sum_delete (m : SortedMap κ ν) (f : κ → ν → A) (k : κ) :
    (m.delete k).sum f = m.sum f - (m.get k).elim 0 (f k) :=
  (sum_update (m.get_delete k) f).trans (add_zero _)

theorem sum_set (m : SortedMap κ ν) (f : κ → ν → A) (k : κ) (v : ν) :
    (m.set k v).sum f = m.sum f - (m.get k).elim 0 (f k) + f k v :=
  sum_update (fun k' => m.get_set k k' v) f

variable {f : κ → ν → A} {m : SortedMap κ ν}

/-- Tables that give the same quantity at every key have the same sum. -/
theorem sum_eq_of_get {ν' : Type} {m' : SortedMap κ ν'}
    {g : κ → ν' → A} (same : ∀ k, (m.get k).elim 0 (f k) = (m'.get k).elim 0 (g k)) :
    m.sum f = m'.sum g := by
  have left := sum_eq_sum_finset m f (m.keys.toFinset ∪ m'.keys.toFinset)
    fun k member => Finset.mem_union_left _ (mem_toFinset.mpr member)
  have right := sum_eq_sum_finset m' g (m.keys.toFinset ∪ m'.keys.toFinset)
    fun k member => Finset.mem_union_right _ (mem_toFinset.mpr member)
  rw [left, right]
  exact Finset.sum_congr rfl fun k _ => same k

theorem sum_one (m : SortedMap κ ν) : m.sum (fun _ _ => (1 : ℤ)) = m.pairs.length := by
  rw [sum, map_const', sum_replicate, nsmul_one]

theorem sum_eq_zero (zero : ∀ k v, m.get k = some v → f k v = 0) : m.sum f = 0 := by
  apply List.sum_eq_zero
  intro a inside
  obtain ⟨⟨k, v⟩, entry, rfl⟩ := mem_map.mp inside
  exact zero k v ((m.mem_pairs k v).mp entry)

variable [PartialOrder A] [IsOrderedAddMonoid A] (nonneg : ∀ k v, m.get k = some v → 0 ≤ f k v)

include nonneg

theorem sum_nonneg : 0 ≤ m.sum f := by
  apply List.sum_nonneg
  intro x listed
  obtain ⟨p, inside, rfl⟩ := mem_map.mp listed
  exact nonneg p.1 p.2 ((mem_pairs m p.1 p.2).mp inside)

theorem le_sum {v : ν} (found : m.get k = some v) : f k v ≤ m.sum f := by
  have others : 0 ≤ (m.delete k).sum f := by
    apply sum_nonneg
    intro k' v' found'
    exact nonneg k' v' (get_delete_eq_some.mp found').2
  rw [sum_delete, found] at others
  exact sub_nonneg.mp others

end

variable {ι : Type} [LinearOrder ι] {index index' : SortedMap ι κ} {has : ν → ι → Prop}
  {table table' : SortedMap κ ν}

/-- The index finds the entries of a table by what their values have. -/
def Lists (index : SortedMap ι κ) (has : ν → ι → Prop) (table : SortedMap κ ν) : Prop :=
  ∀ i k, index.get i = some k ↔ ∃ v, table.get k = some v ∧ has v i

variable (lists : Lists index has table)

include lists

theorem Lists.at_entry {i : ι} {l : κ} {v : ν}
    (stored : table.get k = some v) (found : index.get i = some l) : has v i ↔ l = k := by
  constructor
  · intro here
    exact Option.some.inj (found.symm.trans ((lists i k).mpr ⟨v, stored, here⟩))
  rintro rfl
  obtain ⟨_, entry, here⟩ := (lists i l).mp found
  cases stored.symm.trans entry
  exact here

theorem Lists.ne_of_absent {i : ι} {l : κ}
    (absent : table.get k = none) (found : index.get i = some l) : l ≠ k := by
  rintro rfl
  obtain ⟨_, entry, -⟩ := (lists i l).mp found
  rw [absent] at entry
  cases entry

/-- One entry of the table is written or deleted, and the index follows. -/
theorem Lists.update (k : κ) (new : Option ν)
    (written : ∀ l, table'.get l = if l = k then new else table.get l)
    (entered : ∀ i v, new = some v → has v i →
      index'.get i = some k ∧ ∀ l w, table.get l = some w → has w i → l = k)
    (kept : ∀ i, (∀ v, new = some v → ¬ has v i) → ∀ l,
      index'.get i = some l ↔ l ≠ k ∧ index.get i = some l) : Lists index' has table' := by
  intro i l
  rw [written]
  by_cases now : ∃ v, new = some v ∧ has v i
  · obtain ⟨v, here, own⟩ := now
    obtain ⟨entry, alone⟩ := entered i v here own
    rw [entry]
    split
    · rename_i same
      exact iff_of_true (by rw [same]) ⟨v, here, own⟩
    rename_i elsewhere
    refine iff_of_false (fun same => elsewhere (Option.some.inj same).symm) ?_
    rintro ⟨w, found, other⟩
    exact elsewhere (alone l w found other)
  · rw [kept i fun v here own => now ⟨v, here, own⟩]
    split
    · rename_i same
      exact iff_of_false (fun both => both.1 same) now
    · rename_i elsewhere
      exact (and_iff_right elsewhere).trans (lists i l)

end SortedMap
