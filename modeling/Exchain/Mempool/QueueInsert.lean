import Exchain.Mempool.QueueRecord

namespace Exchain.Mempool.GasTxQueue

open List AList

theorem insertElements_cons (x : MempoolTx) (rest txs : List MempoolTx) :
    insertElements (x :: rest) txs = (insertElement x txs).bind (insertElements rest) := rfl

variable {items txs result : List MempoolTx}

theorem insertElements_perm
    (inserted : insertElements items txs = some result) : result.Perm (items ++ txs) := by
  induction items generalizing txs with
  | nil =>
    cases inserted
    exact List.Perm.refl _
  | cons x rest ih =>
    obtain ⟨_, first, later⟩ := Option.bind_eq_some_iff.mp inserted
    have next_perm := (insertElement_perm first).append_left rest
    exact (ih later).trans (next_perm.trans perm_middle)

theorem insertElements_isSome {address : Address} (items : List MempoolTx) (txs : List MempoolTx)
    (owned : ∀ e ∈ items, e.fromAddr = address)
    (distinct : items.Pairwise fun x y => x.nonce ≠ y.nonce)
    (fresh : ∀ e ∈ txs, e.fromAddr = address → ∀ x ∈ items, e.nonce ≠ x.nonce) :
    ∃ result, insertElements items txs = some result := by
  induction items generalizing txs with
  | nil => exact ⟨txs, rfl⟩
  | cons x rest ih =>
    have own : x.fromAddr = address := owned x mem_cons_self
    obtain ⟨next, first⟩ := insertElement_isSome fun e inside same =>
      fresh e inside (same.trans own) x mem_cons_self
    obtain ⟨differ, distinct_rest⟩ := pairwise_cons.mp distinct
    have next_fresh : ∀ e ∈ next, e.fromAddr = address → ∀ y ∈ rest, e.nonce ≠ y.nonce := by
      intro e inside same y later
      rcases mem_cons.mp ((insertElement_perm first).mem_iff.mp inside) with rfl | before
      · exact differ y later
      · exact fresh e before same y (mem_cons_of_mem _ later)
    obtain ⟨result, later⟩ := ih next (fun e inside => owned e (mem_cons_of_mem _ inside))
      distinct_rest next_fresh
    exact ⟨result, by rw [insertElements_cons, first]; exact later⟩

/-- Elements of one address inserted in nonce order, all above those already listed, keep the order.
-/
theorem insertElements_nonceOrdered {address : Address} (owned : ∀ e ∈ items, e.fromAddr = address)
    (increasing : items.Pairwise fun x y => x.nonce < y.nonce)
    (above : ∀ e ∈ txs, e.fromAddr = address → ∀ x ∈ items, e.nonce < x.nonce)
    (ordered : NonceOrdered txs) (inserted : insertElements items txs = some result) :
    NonceOrdered result := by
  induction items generalizing txs with
  | nil =>
    cases inserted
    exact ordered
  | cons x rest ih =>
    obtain ⟨next, first, later⟩ := Option.bind_eq_some_iff.mp inserted
    have own : x.fromAddr = address := owned x mem_cons_self
    have largest : ∀ e ∈ txs, e.fromAddr = x.fromAddr → e.nonce < x.nonce :=
      fun e inside same => above e inside (same.trans own) x mem_cons_self
    have next_ordered : NonceOrdered next := (insertElement_nonceOrdered_iff ordered
        (fun e inside same => Nat.ne_of_lt (largest e inside same)) first).mpr
        (notOvertaken_of_largest largest)
    obtain ⟨smaller, increasing_rest⟩ := pairwise_cons.mp increasing
    refine ih (fun e inside => owned e (mem_cons_of_mem _ inside)) increasing_rest ?_
      next_ordered later
    intro e inside same y member
    rcases mem_cons.mp ((insertElement_perm first).mem_iff.mp inside) with rfl | before
    · exact smaller y member
    · exact above e before same y (mem_cons_of_mem _ member)

variable {keys : KeyRegime} {q : GasTxQueue}

section

variable {t old : MempoolTx} {am : AddrMap}

/-- The list after a replacement: the old element is out, the new one and the sender's larger nonces
are inserted in order. -/
def replaced (q : GasTxQueue) (am : AddrMap) (t old : MempoolTx) : Option (List MempoolTx) :=
  let larger := (am.itemsWhere fun nonce => decide (t.nonce < nonce)).insertionSort
    fun x y => x.nonce ≤ y.nonce
  insertElements (t :: larger) ((q.sortedTxs.erase old).diff larger)

theorem reorganizeElements_eq (synced : Synced keys q)
    (outer : q.addrTxs.lookup t.fromAddr = some am) : (q.removeElement keys old).reorganizeElements
        (t :: am.itemsWhere fun nonce => decide (t.nonce < nonce)) =
      (replaced q am t old).map fun txs => { q.removeElement keys old with sortedTxs := txs } := by
  have smallest : ∀ e ∈ am.itemsWhere (fun nonce => decide (t.nonce < nonce)),
      t.nonce ≤ e.nonce := by
    intro e inside
    have above := ((mem_itemsWhere synced outer _ e).mp inside).2.2
    exact Nat.le_of_lt (of_decide_eq_true above)
  unfold reorganizeElements replaced
  dsimp only
  rw [insertionSort_cons_of_forall_rel _ smallest, ← diff_eq_foldl]
  rfl

theorem replaced_spec (synced : Synced keys q)
    (outer : q.addrTxs.lookup t.fromAddr = some am) (found : am.items.lookup t.nonce = some old) :
    ∃ txs, replaced q am t old = some txs ∧ txs.Perm (t :: q.sortedTxs.erase old) ∧
      (NonceOrdered q.sortedTxs → NonceOrdered txs) := by
  have old_listed := synced.listed t.fromAddr t.nonce old
    ((item_eq_of_lookup outer t.nonce).trans found)
  have rest_nodup : (q.sortedTxs.erase old).Nodup := synced.nodup.erase old
  unfold replaced
  generalize sorted_eq : (am.itemsWhere fun nonce => decide (t.nonce < nonce)).insertionSort
    (fun x y => x.nonce ≤ y.nonce) = larger
  have larger_iff : ∀ e, e ∈ larger ↔
      e ∈ q.sortedTxs ∧ e.fromAddr = t.fromAddr ∧ t.nonce < e.nonce := by
    intro e
    rw [← sorted_eq, mem_insertionSort, mem_itemsWhere synced outer]
    simp
  have increasing : larger.Pairwise fun x y => x.nonce < y.nonce := by
    have sorted : larger.Pairwise fun x y => x.nonce ≤ y.nonce := by
      rw [← sorted_eq]
      exact pairwise_insertionSort _ _
    have distinct : larger.Pairwise fun x y => x.nonce ≠ y.nonce := by
      rw [← sorted_eq]
      exact ((perm_insertionSort _ _).pairwise_iff fun differ => Ne.symm differ).mpr
        (itemsWhere_distinct synced outer _)
    exact (sorted.and distinct).imp fun both => Nat.lt_of_le_of_ne both.1 both.2
  have all_increasing := pairwise_cons.mpr ⟨fun e inside => ((larger_iff e).mp inside).2.2,
      increasing⟩
  have owned : ∀ e ∈ t :: larger, e.fromAddr = t.fromAddr := by
    exact forall_mem_cons.mpr ⟨rfl, fun e later => ((larger_iff e).mp later).2.1⟩
  -- what is left of the sender after detaching lies below the replaced nonce
  have below : ∀ e ∈ (q.sortedTxs.erase old).diff larger, e.fromAddr = t.fromAddr →
      e.nonce < t.nonce := by
    intro e inside same
    have rest := (rest_nodup.mem_sdiff_iff).mp inside
    obtain ⟨differ, listed⟩ := (synced.nodup.mem_erase_iff).mp rest.1
    have not_larger : ¬ t.nonce < e.nonce := fun above =>
      rest.2 ((larger_iff e).mpr ⟨listed, same, above⟩)
    have other_nonce : e.nonce ≠ t.nonce := by
      intro number
      have own := synced.recorded e listed
      rw [same, number, item_eq_of_lookup outer, found] at own
      exact differ (Option.some.inj own).symm
    omega
  have above : ∀ e ∈ (q.sortedTxs.erase old).diff larger, e.fromAddr = t.fromAddr →
      ∀ x ∈ t :: larger, e.nonce < x.nonce := by
    intro e inside same x member
    have lower := below e inside same
    rcases mem_cons.mp member with rfl | later
    · exact lower
    · have upper := ((larger_iff x).mp later).2.2
      omega
  obtain ⟨txs, inserted⟩ := insertElements_isSome (t :: larger) _ owned
    (all_increasing.imp fun less => Nat.ne_of_lt less)
    fun e inside same x member => Nat.ne_of_lt (above e inside same x member)
  refine ⟨txs, inserted, ?_, ?_⟩
  · have larger_sub : larger.Subperm (q.sortedTxs.erase old) := by
      have nodup : larger.Nodup := increasing.imp fun less same => by subst same; omega
      refine subperm_of_subset nodup fun e inside => ?_
      obtain ⟨listed, _⟩ := (larger_iff e).mp inside
      refine (synced.nodup.mem_erase_iff).mpr ⟨?_, listed⟩
      rintro rfl
      omega
    have joined := subperm_append_diff_self_of_count_le
      fun e _ => larger_sub.count_le e
    exact (insertElements_perm inserted).trans (joined.cons t)
  · intro ordered
    have kept : NonceOrdered ((q.sortedTxs.erase old).diff larger) :=
      ordered.sublist ((diff_sublist _ _).trans erase_sublist)
    exact insertElements_nonceOrdered owned all_increasing above kept inserted

end

structure Inserted (keys : KeyRegime) (q q' : GasTxQueue) (t : MempoolTx) : Prop where
  items : ∀ address nonce, q'.item address nonce =
    if address = t.fromAddr ∧ nonce = t.nonce then some t else q.item address nonce
  list : q'.sortedTxs.Perm (t :: match q.item t.fromAddr t.nonce with
    | some old => q.sortedTxs.erase old
    | none => q.sortedTxs)
  maxNonce_ge : ∀ address am, q'.addrTxs.lookup address = some am →
    ∀ nonce e, am.items.lookup nonce = some e → nonce ≤ am.maxNonce
  hashes : ∀ key e, q'.sortedTxsMap.lookup key = some e →
    (e = t ∧ key = keys.txOrTxHashToKey t.tx t.txHash t.height) ∨
      (q.sortedTxsMap.lookup key = some e ∧
        ∀ old, q.item t.fromAddr t.nonce = some old → key ≠ keys.txKey old.tx)
  ordered : NonceOrdered q.sortedTxs → (NonceOrdered q'.sortedTxs ↔
    (q.item t.fromAddr t.nonce = none → NotOvertaken t q.sortedTxs))
  pays : ∀ old, q.item t.fromAddr t.nonce = some old →
    multiPriceBump old.gasPrice q.txPriceBump < t.gasPrice

section

variable {t : MempoolTx} {am : AddrMap} (of : (q.addrTxs.lookup t.fromAddr).getD ⟨∅, 0⟩ = am)

include of

theorem record_added_item (maxNonce : Nat) (address : Address) (nonce : Nat) :
    (q.record t.fromAddr ⟨am.items.insert t.nonce t, maxNonce⟩).item address nonce =
      if address = t.fromAddr ∧ nonce = t.nonce then some t else q.item address nonce := by
  rw [item_record, ← of]
  by_cases same : address = t.fromAddr
  · subst same
    rw [if_pos rfl, lookup_insert_if]
    simp [item_getD]
  · rw [if_neg same, if_neg fun slot => same slot.1]

variable (synced : Synced keys q) (maxNonce : Nat) (own : t.nonce ≤ maxNonce) (others : am.maxNonce ≤ maxNonce)

include synced own others

theorem record_added_maxNonce (address : Address) (am' : AddrMap)
    (found : (q.record t.fromAddr ⟨am.items.insert t.nonce t, maxNonce⟩).addrTxs.lookup address = some am')
    (nonce : Nat) (e : MempoolTx) (entry : am'.items.lookup nonce = some e) : nonce ≤ am'.maxNonce := by
  subst of
  rw [record, lookup_insert_if] at found
  split at found
  · cases found
    rw [lookup_insert_if, item_getD] at entry
    split at entry
    · rename_i same
      exact same.trans_le own
    · exact (synced.item_le_maxNonce entry).trans others
  · exact synced.maxNonce_ge address am' found nonce e entry

theorem inserted_append (missing : q.item t.fromAddr t.nonce = none)
    (inserted : insertElement t q.sortedTxs = some txs)
    (sent : List MempoolTx) (sentMap : AssocMap (List UInt8) MempoolTx) : Inserted keys q
      { ({ q with sortedTxs := txs }.record t.fromAddr ⟨am.items.insert t.nonce t, maxNonce⟩) with
        sortedTxsMap := q.sortedTxsMap.insert (keys.txOrTxHashToKey t.tx t.txHash t.height) t
        bcTxs := sent
        bcTxsMap := sentMap } t where
  items := record_added_item of maxNonce
  list := by
    rw [missing]
    exact insertElement_perm inserted
  maxNonce_ge := record_added_maxNonce of synced maxNonce own others
  hashes key e found := by
    rw [lookup_insert_if] at found
    split at found
    · rename_i own_key
      exact .inl ⟨(Option.some.inj found).symm, own_key⟩
    · refine .inr ⟨found, fun old present => ?_⟩
      rw [missing] at present
      contradiction
  ordered before := by
    rw [forall_prop_of_true missing]
    exact insertElement_nonceOrdered_iff before (synced.fresh missing) inserted
  pays old present := by
    rw [missing] at present
    contradiction

end

section

variable (synced : Synced keys q)

include synced

theorem inserted_replace {t old : MempoolTx} {am : AddrMap}
     (outer : q.addrTxs.lookup t.fromAddr = some am)
    (found : am.items.lookup t.nonce = some old) (result : replaced q am t old = some txs)
    (pays : multiPriceBump old.gasPrice q.txPriceBump < t.gasPrice)
    (sent : List MempoolTx) (sentMap : AssocMap (List UInt8) MempoolTx) : Inserted keys q
      { ({ q.removeElement keys old with sortedTxs := txs }.record t.fromAddr
          ⟨am.items.insert t.nonce t, am.maxNonce⟩) with
        sortedTxsMap := (q.removeElement keys old).sortedTxsMap.insert
          (keys.txOrTxHashToKey t.tx t.txHash t.height) t
        bcTxs := sent
        bcTxsMap := sentMap } t := by
  have present : q.item t.fromAddr t.nonce = some old := (item_eq_of_lookup outer _).trans found
  have of : (q.addrTxs.lookup t.fromAddr).getD ⟨∅, 0⟩ = am := by rw [outer]; rfl
  obtain ⟨_, result', list, ordered⟩ := replaced_spec synced outer found
  cases result.symm.trans result'
  refine ⟨?_, ?_, ?_, ?_, ?_, ?_⟩
  · exact record_added_item of am.maxNonce
  · rw [present]
    exact list
  · exact record_added_maxNonce of synced am.maxNonce (synced.maxNonce_ge _ _ outer _ _ found) (Nat.le_refl _)
  · intro key e entry
    rw [lookup_insert_if] at entry
    split at entry
    · rename_i own_key
      exact .inl ⟨(Option.some.inj entry).symm, own_key⟩
    obtain ⟨other, entry⟩ := lookup_erase_eq_some.mp entry
    refine .inr ⟨entry, fun old' present' => ?_⟩
    cases present.symm.trans present'
    exact other
  · intro before
    refine ⟨fun _ missing => ?_, fun _ => ordered before⟩
    rw [present] at missing
    contradiction
  · intro old' present'
    cases present.symm.trans present'
    exact pays

/-- Insert refuses a replacement that does not pay enough, or inserts; the panic of InsertElement is
out of reach. -/
theorem insert_spec (t : MempoolTx) : (∃ q', q.insert keys t = .ok q' ∧ Inserted keys q q' t) ∨
      (q.insert keys t = .error (.notBigEnough t.fromAddr t.nonce t.gasPrice) ∧
        ∃ old, q.item t.fromAddr t.nonce = some old ∧
          t.gasPrice ≤ multiPriceBump old.gasPrice q.txPriceBump) := by
  unfold insert checkRepeatedAndAddItem
  by_cases larger : ((q.addrTxs.lookup t.fromAddr).getD ⟨∅, 0⟩).maxNonce < t.nonce
  · have missing : q.item t.fromAddr t.nonce = none := by
      cases found : q.item t.fromAddr t.nonce with
      | none => rfl
      | some e =>
        have bound := synced.item_le_maxNonce found
        omega
    obtain ⟨_, inserted⟩ := insertElement_isSome (synced.fresh missing)
    rw [if_pos larger, inserted]
    exact .inl ⟨_, rfl, inserted_append rfl synced t.nonce (Nat.le_refl _)
      (Nat.le_of_lt larger) missing inserted _ _⟩
  rw [if_neg larger, item_getD]
  cases found : q.item t.fromAddr t.nonce with
  | none =>
    obtain ⟨_, inserted⟩ := insertElement_isSome (synced.fresh found)
    rw [inserted]
    exact .inl ⟨_, rfl, inserted_append rfl synced _ (Nat.not_lt.mp larger)
      (Nat.le_refl _) found inserted _ _⟩
  | some old =>
    dsimp only
    by_cases cheap : t.gasPrice ≤ multiPriceBump old.gasPrice q.txPriceBump
    · rw [if_pos cheap]
      exact .inr ⟨rfl, old, rfl, cheap⟩
    obtain ⟨am, outer, entry⟩ := Option.bind_eq_some_iff.mp found
    obtain ⟨_, result, _⟩ := replaced_spec synced outer entry
    have am_eq : (q.addrTxs.lookup t.fromAddr).getD ⟨∅, 0⟩ = am := by rw [outer]; rfl
    rw [if_neg cheap, am_eq, reorganizeElements_eq synced outer, result]
    exact .inl ⟨_, rfl, inserted_replace synced outer entry result
      (Int.not_le.mp cheap) _ _⟩

theorem Synced.mem_rest (t e : MempoolTx) : (e ∈ match q.item t.fromAddr t.nonce with
      | some old => q.sortedTxs.erase old
      | none => q.sortedTxs) ↔
    e ∈ q.sortedTxs ∧ ¬ (e.fromAddr = t.fromAddr ∧ e.nonce = t.nonce) := by
  cases found : q.item t.fromAddr t.nonce with
  | none =>
    refine ⟨fun inside => ⟨inside, fun slot => ?_⟩, fun both => both.1⟩
    exact synced.fresh found e inside slot.1 slot.2
  | some old =>
    rw [synced.nodup.mem_erase_iff, and_comm]
    refine and_congr_right fun inside => not_congr ⟨?_, ?_⟩
    · rintro rfl
      exact (synced.listed _ _ _ found).2
    intro slot
    have own := synced.recorded e inside
    rw [slot.1, slot.2, found] at own
    exact (Option.some.inj own).symm

end

theorem Inserted.mem_iff {q' : GasTxQueue} {t : MempoolTx} (inserted : Inserted keys q q' t)
    (synced : Synced keys q) (e : MempoolTx) : e ∈ q'.sortedTxs ↔
      e = t ∨ (e ∈ q.sortedTxs ∧ ¬ (e.fromAddr = t.fromAddr ∧ e.nonce = t.nonce)) := by
  rw [inserted.list.mem_iff, mem_cons, synced.mem_rest]

theorem Inserted.synced {q' : GasTxQueue} {t : MempoolTx} (inserted : Inserted keys q q' t)
    (synced : Synced keys q)
    (own : keys.txOrTxHashToKey t.tx t.txHash t.height = keys.txKey t.tx) : Synced keys q' where
  listed address nonce e found := by
    rw [inserted.items] at found
    rw [inserted.mem_iff synced]
    split at found
    · rename_i slot
      cases found
      exact ⟨.inl rfl, slot.1.symm, slot.2.symm⟩
    · rename_i elsewhere
      obtain ⟨inside, rfl, rfl⟩ := synced.listed address nonce e found
      exact ⟨.inr ⟨inside, elsewhere⟩, rfl, rfl⟩
  recorded e inside := by
    rw [inserted.items]
    rcases (inserted.mem_iff synced e).mp inside with rfl | ⟨before, elsewhere⟩
    · rw [if_pos ⟨rfl, rfl⟩]
    · rw [if_neg elsewhere]
      exact synced.recorded e before
  nodup := by
    rw [inserted.list.nodup_iff, nodup_cons]
    refine ⟨fun inside => ((synced.mem_rest t t).mp inside).2 ⟨rfl, rfl⟩, ?_⟩
    split
    · exact synced.nodup.erase _
    · exact synced.nodup
  maxNonce_ge := inserted.maxNonce_ge
  keyed key e found := by
    rw [inserted.mem_iff synced]
    rcases inserted.hashes key e found with ⟨rfl, own_key⟩ | ⟨before, replaced_key⟩
    · exact ⟨.inl rfl, own_key.trans own⟩
    obtain ⟨inside, key_eq⟩ := synced.keyed key e before
    refine ⟨.inr ⟨inside, fun slot => ?_⟩, key_eq⟩
    have recorded := synced.recorded e inside
    rw [slot.1, slot.2] at recorded
    exact replaced_key e recorded key_eq

end Exchain.Mempool.GasTxQueue
