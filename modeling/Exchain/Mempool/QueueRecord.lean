import Exchain.Mempool.GasTxQueue

namespace Exchain.Mempool.GasTxQueue

open AList List

def item (q : GasTxQueue) (address : Address) (nonce : Nat) : Option MempoolTx :=
  (q.addrTxs.lookup address).bind fun am => am.items.lookup nonce

/-- The list and the address record hold the same transactions, and the hash map
only leads to listed ones. -/
structure Synced (keys : KeyRegime) (q : GasTxQueue) : Prop where
  listed : ∀ address nonce e, q.item address nonce = some e →
    e ∈ q.sortedTxs ∧ e.fromAddr = address ∧ e.nonce = nonce
  recorded : ∀ e ∈ q.sortedTxs, q.item e.fromAddr e.nonce = some e
  nodup : q.sortedTxs.Nodup
  maxNonce_ge : ∀ address am, q.addrTxs.lookup address = some am →
    ∀ nonce e, am.items.lookup nonce = some e → nonce ≤ am.maxNonce
  keyed : ∀ key e, q.sortedTxsMap.lookup key = some e → e ∈ q.sortedTxs ∧ key = keys.txKey e.tx

theorem newGasTxQueue_synced (keys : KeyRegime) (txPriceBump : Int) :
    Synced keys (newGasTxQueue txPriceBump) where
  listed := by simp [newGasTxQueue, item]
  recorded := by simp [newGasTxQueue]
  nodup := by simp [newGasTxQueue]
  maxNonce_ge := by simp [newGasTxQueue]
  keyed := by simp [newGasTxQueue]

variable {keys : KeyRegime} {q : GasTxQueue}
  {address : Address} {am : AddrMap} {e : MempoolTx} {key : List UInt8} {nonce : Nat}

theorem Synced.fresh (synced : Synced keys q) (missing : q.item address nonce = none) :
    ∀ e ∈ q.sortedTxs, e.fromAddr = address → e.nonce ≠ nonce := by
  intro e inside same number
  have found := synced.recorded e inside
  rw [same, number, missing] at found
  contradiction

theorem item_record (q : GasTxQueue) (address a : Address) (am : AddrMap) (nonce : Nat) :
    (q.record address am).item a nonce =
      if a = address then am.items.lookup nonce else q.item a nonce := by
  unfold item record
  rw [lookup_insert_if]
  split <;> rfl

theorem item_eq_of_lookup (found : q.addrTxs.lookup address = some am) (nonce : Nat) :
    q.item address nonce = am.items.lookup nonce := by
  simp [item, found]

theorem item_getD (q : GasTxQueue) (address : Address) (nonce : Nat) :
    ((q.addrTxs.lookup address).getD ⟨∅, 0⟩).items.lookup nonce = q.item address nonce := by
  unfold item
  cases q.addrTxs.lookup address <;> simp

theorem Synced.item_le_maxNonce (synced : Synced keys q) (found : q.item address nonce = some e) :
    nonce ≤ ((q.addrTxs.lookup address).getD ⟨∅, 0⟩).maxNonce := by
  obtain ⟨am, outer, inner⟩ := Option.bind_eq_some_iff.mp found
  rw [outer]
  exact synced.maxNonce_ge address am outer nonce e inner

/-- `q'` is `q` without the dropped transactions. -/
structure Without (drop : MempoolTx → Bool) (q q' : GasTxQueue) : Prop where
  list : q'.sortedTxs = q.sortedTxs.filter fun e => !drop e
  items : ∀ address nonce, q'.item address nonce = (q.item address nonce).filter fun e => !drop e
  maxNonce_ge : ∀ address am, q'.addrTxs.lookup address = some am →
    ∀ nonce e, am.items.lookup nonce = some e → nonce ≤ am.maxNonce
  hashes : ∀ key e, q'.sortedTxsMap.lookup key = some e →
    q.sortedTxsMap.lookup key = some e ∧ drop e = false

theorem Without.synced {drop : MempoolTx → Bool} {q' : GasTxQueue}
    (without : Without drop q q') (synced : Synced keys q) : Synced keys q' where
  listed address nonce e found := by
    rw [without.items, Option.filter_eq_some_iff] at found
    obtain ⟨inside, owner⟩ := synced.listed address nonce e found.1
    refine ⟨?_, owner⟩
    rw [without.list]
    exact mem_filter.mpr ⟨inside, found.2⟩
  recorded e inside := by
    rw [without.list, mem_filter] at inside
    rw [without.items, Option.filter_eq_some_iff]
    exact ⟨synced.recorded e inside.1, inside.2⟩
  nodup := by
    rw [without.list]
    exact synced.nodup.filter _
  maxNonce_ge := without.maxNonce_ge
  keyed key e found := by
    obtain ⟨before, stays⟩ := without.hashes key e found
    obtain ⟨inside, key_eq⟩ := synced.keyed key e before
    refine ⟨?_, key_eq⟩
    rw [without.list]
    exact mem_filter.mpr ⟨inside, by simp [stays]⟩

theorem Without.refl (synced : Synced keys q) : Without (fun _ => false) q q where
  list := by simp
  items address nonce := by cases q.item address nonce <;> rfl
  maxNonce_ge := synced.maxNonce_ge
  hashes := by simp

theorem Without.trans {drop drop' : MempoolTx → Bool} {q' q'' : GasTxQueue}
    (first : Without drop q q') (second : Without drop' q' q'') :
    Without (fun e => drop e || drop' e) q q'' where
  list := by
    rw [second.list, first.list, filter_filter]
    refine filter_congr fun e _ => ?_
    rw [Bool.not_or, Bool.and_comm]
  items address nonce := by
    rw [second.items, first.items, Option.filter_filter]
    simp
  maxNonce_ge := second.maxNonce_ge
  hashes key e found := by
    obtain ⟨middle, stays'⟩ := second.hashes key e found
    obtain ⟨before, stays⟩ := first.hashes key e middle
    exact ⟨before, by rw [stays, stays']; rfl⟩

theorem le_calculateMaxNonce (items : AssocMap Nat MempoolTx)
    (found : items.lookup nonce = some e) : nonce ≤ calculateMaxNonce items :=
  (foldl_larger_spec Sigma.fst items.entries 0).2.1 ⟨nonce, e⟩
    ((lookup_eq_some_iff _ _ _).mp found)

theorem deleteItem_item (q : GasTxQueue) (e : MempoolTx) (address : Address) (nonce : Nat) :
    (q.deleteItem e).item address nonce =
      if address = e.fromAddr ∧ nonce = e.nonce then none else q.item address nonce := by
  unfold deleteItem
  cases outer : q.addrTxs.lookup e.fromAddr with
  | none =>
    dsimp only
    split
    · rename_i slot
      rw [slot.1, item, outer]
      rfl
    · rfl
  | some am =>
    by_cases same : address = e.fromAddr
    · subst same
      have erased : (am.items.erase e.nonce).lookup nonce =
          if nonce = e.nonce then none else q.item e.fromAddr nonce := by
        rw [lookup_erase_if, item_eq_of_lookup outer]
      simp only [true_and]
      rw [← erased]
      split
      · rename_i empty
        rw [(size_eq_zero_iff _).mp empty nonce]
        simp [item]
      · rw [item_record, if_pos rfl]
    · rw [if_neg fun slot => same slot.1]
      dsimp only
      split
      · simp [item, same]
      · rw [item_record, if_neg same]

theorem deleteItem_maxNonce_ge (before : ∀ address am, q.addrTxs.lookup address = some am →
      ∀ nonce x, am.items.lookup nonce = some x → nonce ≤ am.maxNonce)
    (address : Address) (am : AddrMap)
    (found : (q.deleteItem e).addrTxs.lookup address = some am) (nonce : Nat) (x : MempoolTx)
    (entry : am.items.lookup nonce = some x) : nonce ≤ am.maxNonce := by
  unfold deleteItem at found
  cases outer : q.addrTxs.lookup e.fromAddr with
  | none =>
    rw [outer] at found
    exact before address am found nonce x entry
  | some old =>
    rw [outer] at found
    dsimp only at found
    split at found
    · exact before address am (lookup_erase_eq_some.mp found).2 nonce x entry
    · exact forall_insert (fun _ _ => le_calculateMaxNonce _) before address am found nonce x entry

@[simp] theorem deleteItem_sortedTxs (q : GasTxQueue) (e : MempoolTx) :
    (q.deleteItem e).sortedTxs = q.sortedTxs := by
  unfold deleteItem
  split
  · rfl
  · dsimp only
    split <;> rfl

@[simp] theorem deleteItem_sortedTxsMap (q : GasTxQueue) (e : MempoolTx) :
    (q.deleteItem e).sortedTxsMap = q.sortedTxsMap := by
  unfold deleteItem
  split
  · rfl
  · dsimp only
    split <;> rfl

theorem remove_without (synced : Synced keys q) (inside : e ∈ q.sortedTxs) :
    Without (fun x => x == e) q (q.remove keys e) where
  list := by
    rw [remove, deleteItem_sortedTxs, removeElement, synced.nodup.erase_eq_filter]
    rfl
  items address nonce := by
    rw [remove, deleteItem_item]
    change (if address = e.fromAddr ∧ nonce = e.nonce then none else q.item address nonce) = _
    cases found : q.item address nonce with
    | none => simp
    | some x =>
      obtain ⟨_, owner, number⟩ := synced.listed address nonce x found
      by_cases same : x = e
      · subst same
        simp [owner, number, Option.filter]
      have elsewhere : ¬ (address = e.fromAddr ∧ nonce = e.nonce) := by
        intro slot
        have own := synced.recorded e inside
        rw [← slot.1, ← slot.2, found] at own
        exact same (Option.some.inj own)
      simp [elsewhere, same, Option.filter]
  maxNonce_ge := deleteItem_maxNonce_ge synced.maxNonce_ge
  hashes key x found := by
    rw [remove, deleteItem_sortedTxsMap] at found
    obtain ⟨other, found⟩ := lookup_erase_eq_some.mp found
    refine ⟨found, ?_⟩
    have key_eq := (synced.keyed key x found).2
    by_cases same : x = e
    · subst same
      exact absurd key_eq other
    · simp [same]

/-- A key in the hash map is the hash of its element, so removing by key is removing
the element. -/
theorem removeByKey_eq (synced : Synced keys q) (found : q.sortedTxsMap.lookup key = some e) :
    q.removeByKey key = (some e, q.remove keys e) := by
  obtain ⟨_, rfl⟩ := synced.keyed key e found
  simp [removeByKey, removeElementByKey, found, remove, removeElement]

theorem removeByKey_of_missing (missing : q.sortedTxsMap.lookup key = none) :
    q.removeByKey key = (none, q) := by
  simp [removeByKey, removeElementByKey, missing]

variable (stale : List MempoolTx)

theorem foldl_removeElement_addrTxs (q : GasTxQueue) :
    (stale.foldl (fun acc e => acc.removeElement keys e) q).addrTxs = q.addrTxs := by
  induction stale generalizing q with
  | nil => rfl
  | cons e rest ih => exact ih (q.removeElement keys e)

theorem foldl_removeElement_sortedTxs (q : GasTxQueue) :
    (stale.foldl (fun acc e => acc.removeElement keys e) q).sortedTxs = q.sortedTxs.diff stale := by
  induction stale generalizing q with
  | nil => rfl
  | cons e rest ih =>
    rw [foldl_cons, ih, diff_cons]
    rfl

theorem foldl_removeElement_hashes (q : GasTxQueue) {x : MempoolTx}
    (found : (stale.foldl (fun acc e => acc.removeElement keys e) q).sortedTxsMap.lookup key =
      some x) : q.sortedTxsMap.lookup key = some x ∧ ∀ e ∈ stale, key ≠ keys.txKey e.tx := by
  induction stale generalizing q with
  | nil => exact ⟨found, by simp⟩
  | cons e rest ih =>
    obtain ⟨before, others⟩ := ih (q.removeElement keys e) found
    obtain ⟨other, before⟩ := lookup_erase_eq_some.mp before
    refine ⟨before, ?_⟩
    exact forall_mem_cons.mpr ⟨other, others⟩

section

variable (synced : Synced keys q) (outer : q.addrTxs.lookup address = some am) (select : Nat → Bool)

include synced outer

theorem mem_itemsWhere (e : MempoolTx) :
    e ∈ am.itemsWhere select ↔ e ∈ q.sortedTxs ∧ e.fromAddr = address ∧ select e.nonce = true := by
  constructor
  · intro inside
    obtain ⟨⟨n, e'⟩, entry, rfl⟩ := mem_map.mp inside
    have found := (lookup_eq_some_iff _ _ _).mpr entry
    rw [lookup_keep, Option.filter_eq_some_iff, ← item_eq_of_lookup outer] at found
    obtain ⟨listed, owner, rfl⟩ := synced.listed address n e' found.1
    exact ⟨listed, owner, found.2⟩
  · rintro ⟨listed, rfl, selected⟩
    refine mem_map.mpr ⟨⟨e.nonce, e⟩, (lookup_eq_some_iff _ _ _).mp ?_, rfl⟩
    rw [lookup_keep, ← item_eq_of_lookup outer, synced.recorded e listed]
    simp [selected]

theorem itemsWhere_distinct : (am.itemsWhere select).Pairwise fun x y => x.nonce ≠ y.nonce := by
  have number : ∀ entry ∈ (am.items.keep fun n _ => select n).entries, entry.2.nonce = entry.1 := by
    intro entry inside
    have found := (lookup_eq_some_iff _ entry.1 entry.2).mpr inside
    rw [lookup_keep, Option.filter_eq_some_iff, ← item_eq_of_lookup outer] at found
    exact (synced.listed address entry.1 entry.2 found.1).2.2
  have keys_differ := nodupKeys_iff_pairwise.mp
    (am.items.keep fun n _ => select n).nodupKeys
  refine pairwise_map.mpr (keys_differ.imp_of_mem ?_)
  intro x y hx hy differ
  rw [number x hx, number y hy]
  exact differ

end

/-- CleanItems takes the address's transactions up to the nonce out of everything. -/
theorem cleanItems_without (synced : Synced keys q) (address : Address) (nonce : Nat) :
    Without (fun x => decide (x.fromAddr = address) && decide (x.nonce ≤ nonce)) q
      (q.cleanItems keys address nonce) := by
  unfold cleanItems
  cases outer : q.addrTxs.lookup address with
  | none =>
    have absent : ∀ e ∈ q.sortedTxs, e.fromAddr ≠ address := by
      intro e inside same
      have found := synced.recorded e inside
      rw [same, item, outer] at found
      contradiction
    refine ⟨?_, ?_, synced.maxNonce_ge, ?_⟩
    · refine (filter_eq_self.mpr fun e inside => ?_).symm
      simp [absent e inside]
    · intro a n
      cases found : q.item a n with
      | none => rfl
      | some e =>
        obtain ⟨inside, _⟩ := synced.listed a n e found
        simp [Option.filter, absent e inside]
    · intro key e found
      simp [found, absent e (synced.keyed key e found).1]
  | some am =>
    have left_eq : ∀ n, (am.items.keep fun n _ => decide (nonce < n)).lookup n =
        (q.item address n).filter fun e =>
          !(decide (e.fromAddr = address) && decide (e.nonce ≤ nonce)) := by
      intro n
      rw [lookup_keep, ← item_eq_of_lookup outer]
      cases found : q.item address n with
      | none => rfl
      | some e =>
        obtain ⟨_, owner, rfl⟩ := synced.listed address n e found
        simp [Option.filter, owner]
    have other_eq : ∀ a n, a ≠ address → q.item a n = (q.item a n).filter fun e =>
        !(decide (e.fromAddr = address) && decide (e.nonce ≤ nonce)) := by
      intro a n differ
      cases found : q.item a n with
      | none => rfl
      | some e =>
        obtain ⟨_, rfl, _⟩ := synced.listed a n e found
        simp [Option.filter, differ]
    have list_eq : ((am.itemsWhere fun n => decide (n ≤ nonce)).foldl
        (fun acc e => acc.removeElement keys e) q).sortedTxs = q.sortedTxs.filter fun e =>
          !(decide (e.fromAddr = address) && decide (e.nonce ≤ nonce)) := by
      rw [foldl_removeElement_sortedTxs, synced.nodup.sdiff_eq_filter]
      refine filter_congr fun e inside => ?_
      rw [Bool.eq_iff_iff]
      simp [mem_itemsWhere synced outer, inside]
    have hashes : ∀ key e, ((am.itemsWhere fun n => decide (n ≤ nonce)).foldl
        (fun acc e => acc.removeElement keys e) q).sortedTxsMap.lookup key = some e →
        q.sortedTxsMap.lookup key = some e ∧
          (decide (e.fromAddr = address) && decide (e.nonce ≤ nonce)) = false := by
      intro key e found
      obtain ⟨before, others⟩ := foldl_removeElement_hashes _ _ found
      refine ⟨before, Bool.eq_false_iff.mpr fun drop => ?_⟩
      obtain ⟨inside, key_eq⟩ := synced.keyed key e before
      obtain ⟨same, small⟩ := Bool.and_eq_true_iff.mp drop
      have stale := (mem_itemsWhere synced outer (fun n => decide (n ≤ nonce)) e).mpr
        ⟨inside, of_decide_eq_true same, small⟩
      exact others e stale key_eq
    dsimp only
    split
    · rename_i empty
      refine ⟨list_eq, ?_, ?_, hashes⟩
      · intro a n
        unfold item
        rw [foldl_removeElement_addrTxs, lookup_erase_if]
        by_cases same : a = address
        · rw [if_pos same]
          subst same
          change none = (q.item a n).filter _
          rw [← left_eq, (size_eq_zero_iff _).mp empty n]
        · rw [if_neg same]
          exact other_eq a n same
      · intro a am' found
        rw [foldl_removeElement_addrTxs] at found
        exact synced.maxNonce_ge a am' (lookup_erase_eq_some.mp found).2
    · refine ⟨list_eq, ?_, ?_, hashes⟩
      · intro a n
        rw [item_record]
        by_cases same : a = address
        · subst same
          rw [if_pos rfl, left_eq]
        · rw [if_neg same, item, foldl_removeElement_addrTxs]
          exact other_eq a n same
      · rw [record, foldl_removeElement_addrTxs]
        refine forall_insert (fun n e entry => ?_) synced.maxNonce_ge
        rw [lookup_keep, Option.filter_eq_some_iff] at entry
        exact synced.maxNonce_ge address am outer n e entry.1

end Exchain.Mempool.GasTxQueue
