import Mathlib.Algebra.BigOperators.Group.List.Basic
import Mathlib.Algebra.Order.Ring.Nat
import Exchain.Lib.Run
import Exchain.Mempool.CListMempool

namespace Exchain.Mempool

open GasTxQueue List

def totalBytes (txs : List MempoolTx) : Nat := (txs.map fun t => t.tx.length).sum

theorem totalBytes_filter (txs : List MempoolTx) (drop : MempoolTx → Bool) :
    totalBytes txs = totalBytes (txs.filter fun e => !drop e) + totalBytes (txs.filter drop) := by
  unfold totalBytes
  induction txs with
  | nil => rfl
  | cons e =>
    cases dropped : drop e
    · simp only [filter_cons, dropped, Bool.not_false, if_true, Bool.false_eq_true, if_false,
        map_cons, sum_cons]
      omega
    · simp only [filter_cons, dropped, Bool.not_true, if_true, Bool.false_eq_true, if_false,
        map_cons, sum_cons]
      omega

theorem totalBytes_eq_zero_iff {txs : List MempoolTx} (nonempty : ∀ e ∈ txs, e.tx ≠ []) :
    totalBytes txs = 0 ↔ txs = [] := by
  cases txs with
  | nil => simp [totalBytes]
  | cons e rest =>
    have positive : 0 < e.tx.length := length_pos_iff.mpr (nonempty e mem_cons_self)
    simp only [totalBytes, map_cons, sum_cons, reduceCtorEq, iff_false]
    omega

namespace CListMempool

variable {keys : KeyRegime}

/-- What the counter holds beyond the bytes of the queued transactions. -/
def drift (mem : CListMempool) : Int := mem.txsBytes - totalBytes mem.txs.sortedTxs

/-- The queue is in step with its records and holds no empty transaction. -/
structure Sound (keys : KeyRegime) (mem : CListMempool) : Prop where
  synced : GasTxQueue.Synced keys mem.txs
  nonempty : ∀ e ∈ mem.txs.sortedTxs, e.tx ≠ []

variable {mem : CListMempool}

theorem Sound.without {q : GasTxQueue} {drop : MempoolTx → Bool}
    (sound : Sound keys mem) (without : GasTxQueue.Without drop mem.txs q) (txsBytes : Int) :
    Sound keys { mem with txs := q, txsBytes := txsBytes } where
  synced := without.synced sound.synced
  nonempty e inside := by
    rw [without.list, mem_filter] at inside
    exact sound.nonempty e inside.1

theorem totalBytes_remove (keys : KeyRegime) {e : MempoolTx} (inside : e ∈ mem.txs.sortedTxs) :
    totalBytes (mem.txs.remove keys e).sortedTxs + e.tx.length = totalBytes mem.txs.sortedTxs := by
  rw [remove, deleteItem_sortedTxs, Nat.add_comm]
  exact sum_map_erase (fun t => t.tx.length) inside

/-- Taking a queued transaction out through removeTx keeps the books. -/
theorem removeTx_spec (sound : Sound keys mem) {e : MempoolTx} (inside : e ∈ mem.txs.sortedTxs) :
    Sound keys (mem.removeTx keys e) ∧ (mem.removeTx keys e).drift = mem.drift := by
  have bytes := totalBytes_remove keys inside
  refine ⟨sound.without (remove_without sound.synced inside) _, ?_⟩
  simp only [drift, removeTx]
  omega

theorem removeTx_subset (mem : CListMempool) (e : MempoolTx) :
    (mem.removeTx keys e).txs.sortedTxs ⊆ mem.txs.sortedTxs := by
  rw [removeTx, remove, deleteItem_sortedTxs]
  exact erase_subset

theorem removeTxByKey_spec (sound : Sound keys mem) (key : List UInt8) :
    Sound keys (mem.removeTxByKey key).2 ∧ (mem.removeTxByKey key).2.drift = mem.drift ∧
      (mem.removeTxByKey key).2.txs.sortedTxs ⊆ mem.txs.sortedTxs := by
  cases found : mem.txs.sortedTxsMap.lookup key with
  | none =>
    simp only [removeTxByKey, removeByKey_of_missing found]
    exact ⟨sound, trivial, List.Subset.refl _⟩
  | some e =>
    simp only [removeTxByKey, removeByKey_eq sound.synced found]
    obtain ⟨sound', drift'⟩ := removeTx_spec sound (sound.synced.keyed key e found).1
    exact ⟨sound', drift', removeTx_subset mem e⟩

theorem cleanBlock_spec (height : Int) (isSealed : Bool) (block : List BlockTx)
    (sound : Sound keys mem) (toClean : AssocMap Address Nat) :
    Sound keys (cleanBlock keys height isSealed block mem toClean).1 ∧
      (cleanBlock keys height isSealed block mem toClean).1.drift = mem.drift ∧
      (cleanBlock keys height isSealed block mem toClean).1.txs.sortedTxs ⊆ mem.txs.sortedTxs := by
  induction block generalizing mem toClean with
  | nil => exact ⟨sound, rfl, List.Subset.refl _⟩
  | cons b rest ih =>
    have next := removeTxByKey_spec sound (keys.txOrTxHashToKey b.tx b.txHash height)
    unfold cleanBlock
    split
    · rename_i e mem' removed
      rw [cleanTx] at removed
      rw [removed] at next
      obtain ⟨sound', drift', subset'⟩ := ih next.1 _
      exact ⟨sound', drift'.trans next.2.1, List.Subset.trans subset' next.2.2⟩
    · rename_i mem' removed
      rw [cleanTx] at removed
      rw [removed] at next
      obtain ⟨sound', drift', subset'⟩ := ih next.1 _
      exact ⟨sound', drift'.trans next.2.1, List.Subset.trans subset' next.2.2⟩

/-- The queued transactions that cleaning the collected accounts takes out. -/
def cleaned (toClean : AssocMap Address Nat) (e : MempoolTx) : Bool :=
  toClean.entries.any fun entry => decide (e.fromAddr = entry.1) && decide (e.nonce ≤ entry.2)

theorem cleaned_iff (toClean : AssocMap Address Nat) (e : MempoolTx) :
    cleaned toClean e = true ↔ ∃ nonce, toClean.lookup e.fromAddr = some nonce ∧ e.nonce ≤ nonce := by
  unfold cleaned
  rw [any_eq_true]
  constructor
  · rintro ⟨⟨address, nonce⟩, inside, hit⟩
    obtain ⟨same, small⟩ := Bool.and_eq_true_iff.mp hit
    obtain rfl := of_decide_eq_true same
    exact ⟨nonce, (AList.lookup_eq_some_iff _ _ _).mpr inside, of_decide_eq_true small⟩
  · rintro ⟨nonce, found, small⟩
    exact ⟨⟨e.fromAddr, nonce⟩, (AList.lookup_eq_some_iff _ _ _).mp found, by simp [small]⟩

theorem cleanItems_all_without (entries : List (Σ _ : Address, Nat)) {q : GasTxQueue}
    (synced : GasTxQueue.Synced keys q) : GasTxQueue.Without
      (fun e => entries.any fun entry => decide (e.fromAddr = entry.1) && decide (e.nonce ≤ entry.2))
      q (entries.foldl (fun acc entry => acc.cleanItems keys entry.1 entry.2) q) := by
  induction entries generalizing q with
  | nil => exact GasTxQueue.Without.refl synced
  | cons entry rest ih =>
    have first := cleanItems_without synced entry.1 entry.2
    have later := ih (first.synced synced)
    simpa only [any_cons, foldl_cons] using first.trans later

/-- CleanItems does not touch the counter: the bytes it takes out remain counted. -/
theorem cleanAccounts_spec (sound : Sound keys mem) (toClean : AssocMap Address Nat) :
    Sound keys (mem.cleanAccounts keys toClean) ∧ (mem.cleanAccounts keys toClean).drift =
        mem.drift + totalBytes (mem.txs.sortedTxs.filter (cleaned toClean)) := by
  have without := cleanItems_all_without toClean.entries sound.synced
  refine ⟨sound.without without mem.txsBytes, ?_⟩
  have bytes := totalBytes_filter mem.txs.sortedTxs (cleaned toClean)
  have left : (mem.cleanAccounts keys toClean).txs.sortedTxs =
      mem.txs.sortedTxs.filter fun e => !cleaned toClean e := without.list
  simp only [drift, left]
  simp only [cleanAccounts]
  omega

theorem recheck_spec (txs : List MempoolTx) (valid : MempoolTx → Bool)
    (sound : Sound keys mem) (distinct : txs.Nodup) (inside : ∀ e ∈ txs, e ∈ mem.txs.sortedTxs) :
    Sound keys (txs.foldl (fun acc e => if valid e then acc else acc.removeTx keys e) mem) ∧
      (txs.foldl (fun acc e => if valid e then acc else acc.removeTx keys e) mem).drift =
        mem.drift := by
  induction txs generalizing mem with
  | nil => exact ⟨sound, rfl⟩
  | cons e rest ih =>
    obtain ⟨fresh, distinct_rest⟩ := nodup_cons.mp distinct
    rw [foldl_cons]
    split
    · exact ih sound distinct_rest fun x later => inside x (mem_cons_of_mem _ later)
    have present := inside e mem_cons_self
    obtain ⟨sound', drift'⟩ := removeTx_spec sound present
    have still : ∀ x ∈ rest, x ∈ (mem.removeTx keys e).txs.sortedTxs := by
      intro x later
      have list := (remove_without sound.synced present).list
      change x ∈ (mem.txs.remove keys e).sortedTxs
      rw [list]
      refine mem_filter.mpr ⟨inside x (mem_cons_of_mem _ later), ?_⟩
      have differ : x ≠ e := fun same => fresh (same ▸ later)
      simp [differ]
    obtain ⟨sound'', drift''⟩ := ih sound' distinct_rest still
    exact ⟨sound'', drift''.trans drift'⟩

theorem deleteMinLoop_spec (mempoolSize fuel : Nat) (sound : Sound keys mem) :
    Sound keys (deleteMinLoop keys mempoolSize fuel mem).1 ∧
      (deleteMinLoop keys mempoolSize fuel mem).1.drift = mem.drift := by
  induction fuel generalizing mem with
  | zero => exact ⟨sound, rfl⟩
  | succ fuel ih =>
    unfold deleteMinLoop
    split
    · cases last : mem.txs.sortedTxs.getLast? with
      | none => exact ⟨sound, rfl⟩
      | some e =>
        obtain ⟨sound', drift'⟩ := removeTx_spec sound (mem_of_getLast? last)
        obtain ⟨sound'', drift''⟩ := ih sound'
        exact ⟨sound'', drift''.trans drift'⟩
    · exact ⟨sound, rfl⟩

theorem drift_eq_zero_iff (mem : CListMempool) :
    mem.drift = 0 ↔ mem.txsBytes = totalBytes mem.txs.sortedTxs := by
  unfold drift
  omega

theorem not_overLimit_of_empty (exact_books : mem.drift = 0)
    (empty : mem.txs.sortedTxs = []) (mempoolSize : Nat) : mem.overLimit mempoolSize = false := by
  have counted : mem.txsBytes = 0 := by
    rw [(drift_eq_zero_iff mem).mp exact_books, empty]
    rfl
  simp [overLimit, size, empty, counted]

/-- With exact books the loop stops before the queue runs out. -/
theorem deleteMinLoop_completes (mempoolSize fuel : Nat)
    (sound : Sound keys mem) (exact_books : mem.drift = 0) (enough : mem.size ≤ fuel) :
    (deleteMinLoop keys mempoolSize fuel mem).2 = true := by
  induction fuel generalizing mem with
  | zero =>
    have empty : mem.txs.sortedTxs = [] := length_eq_zero_iff.mp (Nat.le_zero.mp enough)
    simp [deleteMinLoop, not_overLimit_of_empty exact_books empty]
  | succ fuel ih =>
    unfold deleteMinLoop
    split
    · rename_i full
      cases last : mem.txs.sortedTxs.getLast? with
      | none =>
        have empty := getLast?_eq_none_iff.mp last
        rw [not_overLimit_of_empty exact_books empty] at full
        contradiction
      | some e =>
        have inside := mem_of_getLast? last
        obtain ⟨sound', drift'⟩ := removeTx_spec sound inside
        refine ih sound' (drift'.trans exact_books) ?_
        have erased : (mem.removeTx keys e).size = mem.size - 1 := by
          rw [size, removeTx, remove, deleteItem_sortedTxs]
          exact length_erase_of_mem inside
        omega
    · rfl

end CListMempool

end Exchain.Mempool
