import Mathlib.Algebra.Order.Ring.Nat
import Exchain.Lib.Run
import Exchain.Mempool.PendingPool

namespace Exchain.Mempool.PendingPool

open List
open AList hiding size

variable (txID : List UInt8 → String) (p : PendingPool)

/-- The number of (address, nonce) entries. -/
def entryCount : Nat := (p.addressTxsMap.entries.map fun e => e.2.size).sum

/-- The two maps describe the same transactions, filed under their sender and nonce, and no address
is kept without one. -/
structure Linked (p : PendingPool) : Prop where
  same_txs : ∀ h t, p.txsMap.lookup h = some t ↔ p.getTx t.fromAddr t.nonce = some t ∧ h = txID t.tx
  own_slot : ∀ address nonce t, p.getTx address nonce = some t →
    t.fromAddr = address ∧ t.nonce = nonce
  inhabited : ∀ address txs, p.addressTxsMap.lookup address = some txs →
    ∃ nonce t, txs.lookup nonce = some t

/-- What the pool promises between two operations. -/
structure Consistent (p : PendingPool) : Prop where
  same_txs : ∀ h t, p.txsMap.lookup h = some t ↔ p.getTx t.fromAddr t.nonce = some t ∧ h = txID t.tx
  own_slot : ∀ address nonce t, p.getTx address nonce = some t →
    t.fromAddr = address ∧ t.nonce = nonce
  size_eq : p.size = p.entryCount
  size_le : p.size ≤ p.maxSize
  count_le : ∀ address, p.txCount address ≤ p.maxTxPerAddress
  counted : ∀ address, address ∈ p.periodCounter → ∃ nonce t, p.getTx address nonce = some t

theorem getTx_of_lookup {address : Address} {txs : AssocMap Nat MempoolTx}
    (found : p.addressTxsMap.lookup address = some txs) (nonce : Nat) :
    p.getTx address nonce = txs.lookup nonce := by
  simp [getTx, found]

theorem lookup_of_getTx {address : Address} {nonce : Nat} {t : MempoolTx}
    (found : p.getTx address nonce = some t) :
    ∃ txs, p.addressTxsMap.lookup address = some txs ∧ txs.lookup nonce = some t :=
  Option.bind_eq_some_iff.mp found

/-- The pool's transactions listed address by address. -/
def slotTxs : List MempoolTx :=
  p.addressTxsMap.entries.flatMap fun e => e.2.entries.map fun slot => slot.2

theorem mem_slotTxs (t : MempoolTx) :
    t ∈ p.slotTxs ↔ ∃ address nonce, p.getTx address nonce = some t := by
  constructor
  · intro inside
    obtain ⟨⟨address, _⟩, outer, inner⟩ := mem_flatMap.mp inside
    obtain ⟨⟨nonce, _⟩, slot, rfl⟩ := mem_map.mp inner
    refine ⟨address, nonce, ?_⟩
    rw [getTx_of_lookup p ((lookup_eq_some_iff _ _ _).mpr outer)]
    exact (lookup_eq_some_iff _ _ _).mpr slot
  · rintro ⟨address, nonce, found⟩
    obtain ⟨txs, outer, slot⟩ := lookup_of_getTx p found
    refine mem_flatMap.mpr ⟨⟨address, txs⟩, (lookup_eq_some_iff _ _ _).mp outer, ?_⟩
    exact mem_map.mpr ⟨⟨nonce, t⟩, (lookup_eq_some_iff _ _ _).mp slot, rfl⟩

variable {txID}

theorem slotTxs_nodup {p : PendingPool} (linked : Linked txID p) : p.slotTxs.Nodup := by
  -- a transaction's own sender and nonce tell in which slot it sits
  have slot_of : ∀ e ∈ p.addressTxsMap.entries, ∀ slot ∈ e.2.entries,
      slot.2.fromAddr = e.1 ∧ slot.2.nonce = slot.1 := by
    intro e outer slot inner
    refine linked.own_slot e.1 slot.1 slot.2 ?_
    rw [getTx_of_lookup p ((lookup_eq_some_iff _ _ _).mpr outer)]
    exact (lookup_eq_some_iff _ _ _).mpr inner
  refine nodup_flatMap.mpr ⟨?_, ?_⟩
  · intro e outer
    refine List.Nodup.map_on ?_ e.2.nodupKeys.nodup
    intro slot inner slot' inner' same
    refine e.2.nodupKeys.eq_of_fst_eq inner inner' ?_
    rw [← (slot_of e outer slot inner).2, ← (slot_of e outer slot' inner').2, same]
  refine (nodupKeys_iff_pairwise.mp p.addressTxsMap.nodupKeys).imp_of_mem ?_
  intro e e' outer outer' differ
  change List.Disjoint _ _
  intro t ht ht'
  obtain ⟨slot, inner, rfl⟩ := mem_map.mp ht
  obtain ⟨slot', inner', same⟩ := mem_map.mp ht'
  apply differ
  rw [← (slot_of e outer slot inner).1, ← (slot_of e' outer' slot' inner').1, same]

theorem size_eq_entryCount {p : PendingPool} (linked : Linked txID p) : p.size = p.entryCount := by
  have hashed_nodup : (p.txsMap.entries.map fun e => e.2).Nodup := by
    refine List.Nodup.map_on ?_ p.txsMap.nodupKeys.nodup
    rintro ⟨h, t⟩ inside ⟨h', t'⟩ inside' same
    have key := (linked.same_txs h t).mp ((lookup_eq_some_iff _ _ _).mpr inside)
    have key' := (linked.same_txs h' t').mp ((lookup_eq_some_iff _ _ _).mpr inside')
    obtain rfl : t = t' := same
    rw [key.2, key'.2]
  have same : (p.txsMap.entries.map fun e => e.2).Perm p.slotTxs := by
    refine (perm_ext_iff_of_nodup hashed_nodup (slotTxs_nodup linked)).mpr fun t => ?_
    rw [mem_slotTxs]
    constructor
    · intro inside
      obtain ⟨⟨h, t'⟩, entry, rfl⟩ := mem_map.mp inside
      have found := (linked.same_txs h t').mp ((lookup_eq_some_iff _ _ _).mpr entry)
      exact ⟨_, _, found.1⟩
    · rintro ⟨address, nonce, found⟩
      obtain ⟨rfl, rfl⟩ := linked.own_slot address nonce t found
      have entry := (linked.same_txs (txID t.tx) t).mpr ⟨found, rfl⟩
      exact mem_map.mpr ⟨⟨_, t⟩, (lookup_eq_some_iff _ _ _).mp entry, rfl⟩
  have lengths := same.length_eq
  simpa [slotTxs, length_flatMap, entryCount, AList.size, size] using lengths

/-- `p'` is `p` without the transactions in the dropped slots. -/
structure Dropped (drop : Address → Nat → Bool) (p p' : PendingPool) : Prop where
  slots : ∀ address nonce, p'.getTx address nonce =
    if drop address nonce then none else p.getTx address nonce
  hashes : ∀ h, p'.txsMap.lookup h = (p.txsMap.lookup h).filter fun t => !drop t.fromAddr t.nonce
  inhabited : ∀ address txs, p'.addressTxsMap.lookup address = some txs →
    ∃ nonce t, txs.lookup nonce = some t
  maxSize : p'.maxSize = p.maxSize
  maxTxPerAddress : p'.maxTxPerAddress = p.maxTxPerAddress

namespace Dropped

variable {drop drop' : Address → Nat → Bool} {p p' p'' : PendingPool}

theorem refl (linked : Linked txID p) : Dropped (fun _ _ => false) p p where
  slots := by simp
  hashes h := by cases p.txsMap.lookup h <;> rfl
  inhabited := linked.inhabited
  maxSize := rfl
  maxTxPerAddress := rfl

theorem trans (first : Dropped drop p p') (second : Dropped drop' p' p'') :
    Dropped (fun address nonce => drop address nonce || drop' address nonce) p p'' where
  slots address nonce := by
    rw [second.slots, first.slots]
    cases drop address nonce <;> cases drop' address nonce <;> rfl
  hashes h := by
    rw [second.hashes, first.hashes, Option.filter_filter]
    congr 1
    funext t
    cases drop t.fromAddr t.nonce <;> rfl
  inhabited := second.inhabited
  maxSize := second.maxSize.trans first.maxSize
  maxTxPerAddress := second.maxTxPerAddress.trans first.maxTxPerAddress

variable (dropped : Dropped drop p p')
include dropped

theorem linked (linked : Linked txID p) : Linked txID p' where
  same_txs h t := by
    rw [dropped.hashes, Option.filter_eq_some_iff, linked.same_txs, dropped.slots]
    cases drop t.fromAddr t.nonce <;> simp
  own_slot address nonce t found := by
    rw [dropped.slots] at found
    split at found
    · contradiction
    exact linked.own_slot address nonce t found
  inhabited := dropped.inhabited

theorem size_le : p'.size ≤ p.size := by
  refine size_le_of_lookup _ _ fun h t found => ?_
  rw [dropped.hashes, Option.filter_eq_some_iff] at found
  exact found.1

theorem txCount_le (address : Address) :
    p'.txCount address ≤ p.txCount address := by
  cases found : p'.addressTxsMap.lookup address with
  | none => simp [txCount, found]
  | some txs =>
    have kept : ∀ nonce t, txs.lookup nonce = some t → p.getTx address nonce = some t := by
      intro nonce t slot
      rw [← getTx_of_lookup p' found, dropped.slots] at slot
      split at slot
      · contradiction
      exact slot
    obtain ⟨nonce, t, slot⟩ := dropped.inhabited address txs found
    obtain ⟨_, outer, _⟩ := lookup_of_getTx p (kept nonce t slot)
    simp only [txCount, found, outer]
    refine size_le_of_lookup _ _ fun nonce t slot => ?_
    rw [← getTx_of_lookup p outer]
    exact kept nonce t slot

omit dropped

section

variable {address : Address} {txs : AssocMap Nat MempoolTx}
  (found : p.addressTxsMap.lookup address = some txs) (txs' : AssocMap Nat MempoolTx)
  (gone : Nat → Bool)
  (left : ∀ nonce, txs'.lookup nonce = if gone nonce then none else txs.lookup nonce)
  (outer : ∀ a, p'.addressTxsMap.lookup a =
    if a = address then (if txs'.size = 0 then none else some txs') else p.addressTxsMap.lookup a)

include found left outer

theorem getTx_of_left (a : Address) (nonce : Nat) :
    p'.getTx a nonce = if decide (a = address) && gone nonce then none else p.getTx a nonce := by
  by_cases same : a = address
  · subst same
    rw [getTx_of_lookup p found, getTx, outer]
    by_cases empty : txs'.size = 0
    · have absent := (size_eq_zero_iff txs').mp empty nonce
      rw [left] at absent
      simpa [empty] using absent.symm
    · simpa [empty] using left nonce
  · simp [getTx, outer, same]

theorem of_address (linked : Linked txID p)
    (deleted : ∀ nonce t, gone nonce = true → txs.lookup nonce = some t →
      p'.txsMap.lookup (txID t.tx) = none)
    (kept : ∀ h, (∀ nonce t, gone nonce = true → txs.lookup nonce = some t → h ≠ txID t.tx) →
      p'.txsMap.lookup h = p.txsMap.lookup h)
    (maxSize : p'.maxSize = p.maxSize) (maxTxPerAddress : p'.maxTxPerAddress = p.maxTxPerAddress) :
    Dropped (fun a nonce => decide (a = address) && gone nonce) p p' where
  slots := getTx_of_left found txs' gone left outer
  hashes h := by
    by_cases hit : ∃ nonce t, gone nonce = true ∧ txs.lookup nonce = some t ∧ h = txID t.tx
    · obtain ⟨nonce, t, dropped, slot, rfl⟩ := hit
      rw [deleted nonce t dropped slot]
      have found_t : p.getTx address nonce = some t := by rw [getTx_of_lookup p found, slot]
      obtain ⟨owner, number⟩ := linked.own_slot address nonce t found_t
      rw [← owner, ← number] at found_t
      rw [(linked.same_txs _ t).mpr ⟨found_t, rfl⟩]
      simp [Option.filter, owner, number, dropped]
    have missed := fun nonce t dropped slot same => hit ⟨nonce, t, dropped, slot, same⟩
    rw [kept h missed]
    cases entry : p.txsMap.lookup h with
    | none => rfl
    | some t =>
      obtain ⟨slot, rfl⟩ := (linked.same_txs h t).mp entry
      have stays : (decide (t.fromAddr = address) && gone t.nonce) = false := by
        rw [Bool.and_eq_false_iff]
        by_cases same : t.fromAddr = address
        · subst same
          rw [getTx_of_lookup p found] at slot
          exact .inr (Bool.eq_false_iff.mpr fun dropped =>
            missed t.nonce t dropped slot rfl)
        · simp [same]
      simp [Option.filter, stays]
  inhabited a inner entry := by
    rw [outer] at entry
    split at entry
    · split at entry
      · contradiction
      rename_i nonempty
      cases entry
      exact exists_lookup_of_size_ne_zero txs' nonempty
    · exact linked.inhabited a inner entry
  maxSize := maxSize
  maxTxPerAddress := maxTxPerAddress

end

theorem of_absent {address : Address} {gone : Nat → Bool} (linked : Linked txID p)
    (absent : p.addressTxsMap.lookup address = none) :
    Dropped (fun a nonce => decide (a = address) && gone nonce) p p where
  slots a nonce := by
    split
    · rename_i dropped
      obtain rfl := of_decide_eq_true (Bool.and_eq_true_iff.mp dropped).1
      simp [getTx, absent]
    · rfl
  hashes h := by
    cases entry : p.txsMap.lookup h with
    | none => rfl
    | some t =>
      have slot := ((linked.same_txs h t).mp entry).1
      have stays : t.fromAddr ≠ address := by
        rintro rfl
        simp [getTx, absent] at slot
      simp [Option.filter, stays]
  inhabited := linked.inhabited
  maxSize := rfl
  maxTxPerAddress := rfl

end Dropped

variable (p : PendingPool)

theorem settle_lookup (address a : Address) (txs : AssocMap Nat MempoolTx) :
    (p.settle address txs).addressTxsMap.lookup a =
      if a = address then (if txs.size = 0 then none else some txs)
      else p.addressTxsMap.lookup a := by
  unfold settle
  split
  · rw [lookup_erase_if]
  · rw [lookup_insert_if]

@[simp] theorem settle_txsMap (address : Address)
    (txs : AssocMap Nat MempoolTx) : (p.settle address txs).txsMap = p.txsMap := by
  unfold settle
  split <;> rfl

@[simp] theorem settle_maxSize (address : Address)
    (txs : AssocMap Nat MempoolTx) : (p.settle address txs).maxSize = p.maxSize := by
  unfold settle
  split <;> rfl

@[simp] theorem settle_maxTxPerAddress (address : Address) (txs : AssocMap Nat MempoolTx) :
    (p.settle address txs).maxTxPerAddress = p.maxTxPerAddress := by
  unfold settle
  split <;> rfl

theorem settle_counter (address a : Address) (txs : AssocMap Nat MempoolTx)
    (counted : a ∈ (p.settle address txs).periodCounter) :
    a ∈ p.periodCounter ∧ (a = address → txs.size ≠ 0) := by
  unfold settle at counted
  split at counted
  · rw [mem_erase] at counted
    exact ⟨counted.2, fun same => absurd same counted.1⟩
  rename_i nonempty
  refine ⟨?_, fun _ => nonempty⟩
  split at counted
  · rename_i count entry
    split at counted
    · rw [mem_insert] at counted
      rcases counted with rfl | inside
      · exact (mem_iff_lookup _ _).mpr ⟨count, entry⟩
      · exact inside
    · exact counted
  · exact counted

theorem settle_counted (address : Address) (txs : AssocMap Nat MempoolTx)
    (others : ∀ a, a ∈ p.periodCounter → a ≠ address → ∃ nonce t, p.getTx a nonce = some t)
    (a : Address) (counted : a ∈ (p.settle address txs).periodCounter) :
    ∃ nonce t, (p.settle address txs).getTx a nonce = some t := by
  obtain ⟨before, nonempty⟩ := settle_counter p address a txs counted
  by_cases same : a = address
  · obtain ⟨nonce, t, slot⟩ := exists_lookup_of_size_ne_zero txs (nonempty same)
    refine ⟨nonce, t, ?_⟩
    simpa [getTx, settle_lookup, same, nonempty same] using slot
  · obtain ⟨nonce, t, slot⟩ := others a before same
    refine ⟨nonce, t, ?_⟩
    rw [getTx, settle_lookup, if_neg same]
    exact slot

/-- The invariant behind `Consistent`: the sizes agree because the maps are linked. -/
structure Sound (txID : List UInt8 → String) (p : PendingPool) : Prop where
  linked : Linked txID p
  size_le : p.size ≤ p.maxSize
  count_le : ∀ address, p.txCount address ≤ p.maxTxPerAddress
  counted : ∀ address, address ∈ p.periodCounter → ∃ nonce t, p.getTx address nonce = some t

theorem Sound.consistent {p : PendingPool} (sound : Sound txID p) : Consistent txID p where
  same_txs := sound.linked.same_txs
  own_slot := sound.linked.own_slot
  size_eq := size_eq_entryCount sound.linked
  size_le := sound.size_le
  count_le := sound.count_le
  counted := sound.counted

theorem Sound.dropped {p p' : PendingPool} {drop : Address → Nat → Bool} (sound : Sound txID p)
    (dropped : Dropped drop p p') (counted : ∀ address, address ∈ p'.periodCounter →
      ∃ nonce t, p'.getTx address nonce = some t) : Sound txID p' where
  linked := dropped.linked sound.linked
  size_le := by
    have smaller := dropped.size_le
    have bound := sound.size_le
    rw [dropped.maxSize]
    omega
  count_le address := by
    have smaller := dropped.txCount_le address
    have bound := sound.count_le address
    rw [dropped.maxTxPerAddress]
    omega
  counted := counted

end Exchain.Mempool.PendingPool
