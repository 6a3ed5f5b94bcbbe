import Mathlib.Data.List.AList

/-! Finite maps as association lists without repeated keys, with the few operations that loops over
a map perform. -/

/-- A finite map; the list order is the order in which a loop visits the entries. -/
abbrev AssocMap (κ ν : Type) := AList (fun _ : κ => ν)

namespace AList

open AList

variable {κ ν : Type} [DecidableEq κ]

def size (m : AssocMap κ ν) : Nat := m.entries.length

/-- The entries a predicate selects. -/
def keep (m : AssocMap κ ν) (p : κ → ν → Bool) : AssocMap κ ν where
  entries := m.entries.filter fun e => p e.1 e.2
  nodupKeys := m.nodupKeys.sublist List.filter_sublist

def mapValues {ν' : Type} (m : AssocMap κ ν) (f : κ → ν → ν') : AssocMap κ ν' where
  entries := m.entries.map fun e => ⟨e.1, f e.1 e.2⟩
  nodupKeys := by
    rw [List.NodupKeys, List.keys, List.map_map]
    exact m.nodupKeys

def eraseAll (m : AssocMap κ ν) (keys : List κ) : AssocMap κ ν :=
  keys.foldl (fun acc k => acc.erase k) m

section

variable (m : AssocMap κ ν)

include m

theorem lookup_insert_if (k a : κ) (v : ν) :
    (m.insert a v).lookup k = if k = a then some v else m.lookup k := by
  by_cases same : k = a
  · subst same
    simp
  · simp [same]

theorem lookup_erase_if (k a : κ) : (m.erase a).lookup k = if k = a then none else m.lookup k := by
  by_cases same : k = a
  · subst same
    simp
  · simp [same]

omit m in
/-- What holds of a written entry and of the old ones holds of every entry. -/
theorem forall_insert {m : AssocMap κ ν} {a : κ} {v : ν} {P : κ → ν → Prop} (here : P a v)
    (others : ∀ k w, m.lookup k = some w → P k w) :
    ∀ k w, (m.insert a v).lookup k = some w → P k w := by
  intro k w found
  rw [lookup_insert_if] at found
  split at found
  case isTrue same =>
    cases found
    exact same ▸ here
  case isFalse => exact others k w found

omit m in
theorem lookup_erase_eq_some {m : AssocMap κ ν} {k a : κ} {v : ν} :
    (m.erase a).lookup k = some v ↔ k ≠ a ∧ m.lookup k = some v := by
  rw [lookup_erase_if]
  split <;> simp_all

theorem lookup_eq_some_iff (k : κ) (v : ν) :
    m.lookup k = some v ↔ (⟨k, v⟩ : Σ _ : κ, ν) ∈ m.entries :=
  mem_lookup_iff

theorem lookup_keep (p : κ → ν → Bool) (k : κ) :
    (m.keep p).lookup k = (m.lookup k).filter (p k) := by
  ext v
  rw [lookup_eq_some_iff, Option.filter_eq_some_iff, lookup_eq_some_iff]
  simp [keep]

end

theorem lookup_mapValues {ν' : Type} (m : AssocMap κ ν) (f : κ → ν → ν') (k : κ) :
    (m.mapValues f).lookup k = (m.lookup k).map (f k) := by
  ext v
  rw [Option.map_eq_some_iff]
  simp only [mapValues, List.mem_map, lookup_eq_some_iff]
  constructor
  · rintro ⟨⟨a, w⟩, inside, same⟩
    obtain ⟨rfl, rfl⟩ := Sigma.mk.inj_iff.mp same
    exact ⟨w, inside, rfl⟩
  · rintro ⟨w, inside, rfl⟩
    exact ⟨⟨k, w⟩, inside, rfl⟩

section

variable (m : AssocMap κ ν)

include m

theorem lookup_eraseAll (keys : List κ) (k : κ) :
    (m.eraseAll keys).lookup k = if k ∈ keys then none else m.lookup k := by
  unfold eraseAll
  induction keys generalizing m with
  | nil => simp
  | cons a rest ih =>
    rw [List.foldl_cons, ih, lookup_erase_if]
    by_cases later : k ∈ rest <;> by_cases same : k = a <;> simp [later, same]

theorem size_eq_zero_iff : m.size = 0 ↔ ∀ k, m.lookup k = none := by
  constructor
  · intro none_left k
    rw [lookup_eq_none, mem_keys, keys]
    simp [List.length_eq_zero_iff.mp none_left]
  intro absent
  rw [size, List.length_eq_zero_iff, List.eq_nil_iff_forall_not_mem]
  rintro ⟨k, v⟩ inside
  have found := (lookup_eq_some_iff m k v).mpr inside
  simp [absent k] at found

theorem exists_lookup_of_size_ne_zero (nonempty : m.size ≠ 0) : ∃ k v, m.lookup k = some v := by
  obtain ⟨⟨k, v⟩, inside⟩ := List.exists_mem_of_length_pos (Nat.pos_of_ne_zero nonempty)
  exact ⟨k, v, (lookup_eq_some_iff m k v).mpr inside⟩

theorem size_insert_of_absent (k : κ) (v : ν) (absent : m.lookup k = none) :
    (m.insert k v).size = m.size + 1 := by
  rw [size, entries_insert_of_notMem (lookup_eq_none.mp absent)]
  rfl

theorem mem_iff_lookup (k : κ) : k ∈ m ↔ ∃ v, m.lookup k = some v := by
  rw [← lookup_isSome, Option.isSome_iff_exists]

end

/-- A map whose entries all occur in another one is not larger. -/
theorem size_le_of_lookup (m m' : AssocMap κ ν)
    (sub : ∀ k v, m'.lookup k = some v → m.lookup k = some v) : m'.size ≤ m.size := by
  refine (List.subperm_of_subset m'.nodupKeys.nodup ?_).length_le
  rintro ⟨k, v⟩ inside
  exact (lookup_eq_some_iff m k v).mp (sub k v ((lookup_eq_some_iff m' k v).mpr inside))

def pairs (m : AssocMap κ ν) : List (κ × ν) := m.entries.map (fun entry => (entry.1, entry.2))

theorem mem_values_iff (m : AssocMap κ ν) (v : ν) :
    v ∈ m.pairs.map Prod.snd ↔ ∃ k, m.lookup k = some v := by
  simp only [pairs, List.map_map, List.mem_map, lookup_eq_some_iff]
  constructor
  · rintro ⟨⟨k, w⟩, inside, rfl⟩
    exact ⟨k, inside⟩
  · rintro ⟨k, inside⟩
    exact ⟨⟨k, v⟩, inside, rfl⟩

section

variable {σ γ : Type} (read : σ → κ → γ)

/-- A loop over different keys, each of whose steps changes what is read at its key. -/
theorem foldl_keys {step : σ → κ → σ} (change : κ → γ → γ)
    (each : ∀ s a k, read (step s a) k = if k = a then change k (read s k) else read s k)
    {keys : List κ} (nodup : keys.Nodup) (s : σ) (k : κ) :
    read (keys.foldl step s) k = if k ∈ keys then change k (read s k) else read s k := by
  induction keys generalizing s with
  | nil => simp
  | cons a rest ih =>
    obtain ⟨fresh, nodup⟩ := List.nodup_cons.mp nodup
    rw [List.foldl_cons, ih nodup, each]
    by_cases same : k = a
    · subst same
      simp [fresh]
    · simp [same]

/-- A loop over entries with different keys. -/
theorem foldl_entries {step : σ → (Σ _ : κ, ν) → σ} (change : ν → γ → γ)
    (each : ∀ s e k, read (step s e) k = if k = e.1 then change e.2 (read s k) else read s k)
    {entries : List (Σ _ : κ, ν)} (nodup : entries.NodupKeys) (s : σ) (k : κ) :
    read (entries.foldl step s) k =
      (entries.dlookup k).elim (read s k) fun v => change v (read s k) := by
  induction entries generalizing s with
  | nil => rfl
  | cons e rest ih =>
    obtain ⟨a, v⟩ := e
    obtain ⟨fresh, nodup⟩ := List.nodupKeys_cons.mp nodup
    rw [List.foldl_cons, ih nodup, each]
    by_cases same : k = a
    · subst same
      simp [List.dlookup_eq_none.mpr fresh]
    · simp [same]

end

/-- The keys in the order in which a loop visits them: any one it is given. -/
def visit (m : AssocMap κ ν) (order : List κ) : List κ :=
  if order.Perm m.keys then order else m.keys

variable (m : AssocMap κ ν) (order : List κ)

include m order

theorem visit_perm : (m.visit order).Perm m.keys := by
  unfold visit
  split
  · assumption
  · exact .refl m.keys

theorem visit_nodup : (m.visit order).Nodup := (m.visit_perm order).nodup_iff.mpr m.keys_nodup

theorem mem_visit (k : κ) : k ∈ m.visit order ↔ k ∈ m := by
  rw [(m.visit_perm order).mem_iff, mem_keys]

end AList
