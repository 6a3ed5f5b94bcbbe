import Mathlib.Order.Bounds.Basic
import Exchain.Lib.Run
import Exchain.Mempool.QueueInsert

namespace Exchain.Mempool.GasTxQueue

open AList

/-- The calls on the queue. The hash a transaction carries was computed when it was decoded, maybe
before the height it is inserted at. -/
inductive Call
  | insert (t : MempoolTx)
  | remove (e : MempoolTx)
  | removeByKey (key : List UInt8)
  | cleanItems (address : Address) (nonce : Nat)
  deriving DecidableEq, Repr

/-- A refused Insert changes nothing. Remove may be given an element that has left the list: the
list passes it over, and the maps and the record still lose what they hold under its hash and nonce.
-/
def call (keys : KeyRegime) (q : GasTxQueue) : Call → GasTxQueue
  | .insert t =>
    match q.insert keys t with
    | .ok q' => q'
    | .error _ => q
  | .remove e => q.remove keys e
  | .removeByKey key => (q.removeByKey key).2
  | .cleanItems address nonce => q.cleanItems keys address nonce

/-- The five structures describe the same transactions, each once, and every address record knows
its largest nonce. -/
structure Agree (q : GasTxQueue) : Prop where
  once : q.sortedTxs.Nodup
  arrivals : q.bcTxs.Perm q.sortedTxs
  mapped : ∀ e, e ∈ q.sortedTxs ↔ ∃ key, q.sortedTxsMap.lookup key = some e
  arrivalMapped : ∀ e, e ∈ q.sortedTxs ↔ ∃ key, q.bcTxsMap.lookup key = some e
  oneKey : ∀ key key' e, q.sortedTxsMap.lookup key = some e →
    q.sortedTxsMap.lookup key' = some e → key = key'
  arrivalOneKey : ∀ key key' e, q.bcTxsMap.lookup key = some e →
    q.bcTxsMap.lookup key' = some e → key = key'
  recorded : ∀ address nonce e, q.item address nonce = some e ↔
    e ∈ q.sortedTxs ∧ e.fromAddr = address ∧ e.nonce = nonce
  maxNonce : ∀ address am, q.addrTxs.lookup address = some am →
    IsGreatest {nonce | nonce ∈ am.items} am.maxNonce

/-- The sorted list, the list in order of arrival and their maps hold the same transactions, each
under the hash of its raw bytes. -/
structure Listed (keys : KeyRegime) (q : GasTxQueue) : Prop where
  once : q.sortedTxs.Nodup
  arrivals : q.bcTxs.Perm q.sortedTxs
  keyed : ∀ key e, q.sortedTxsMap.lookup key = some e ↔ e ∈ q.sortedTxs ∧ key = keys.txKey e.tx
  arrivalKeyed : ∀ key, q.bcTxsMap.lookup key = q.sortedTxsMap.lookup key

/-- The largest nonce of every address record is that of one of its items. -/
def Attained (q : GasTxQueue) : Prop :=
  ∀ address am, q.addrTxs.lookup address = some am → am.maxNonce ∈ am.items

structure Indexed (keys : KeyRegime) (q : GasTxQueue) : Prop where
  synced : Synced keys q
  listed : Listed keys q
  attained : Attained q

variable {keys : KeyRegime} {q : GasTxQueue}

theorem newGasTxQueue_indexed (keys : KeyRegime) (txPriceBump : Int) :
    Indexed keys (newGasTxQueue txPriceBump) where
  synced := newGasTxQueue_synced keys txPriceBump
  listed := ⟨by simp [newGasTxQueue], by simp [newGasTxQueue], by simp [newGasTxQueue],
    by simp [newGasTxQueue]⟩
  attained := by simp [Attained, newGasTxQueue]

variable (listed : Listed keys q)
include listed

theorem Listed.mapped (e : MempoolTx) :
    e ∈ q.sortedTxs ↔ ∃ key, q.sortedTxsMap.lookup key = some e := by
  constructor
  · intro inside
    exact ⟨_, (listed.keyed _ e).mpr ⟨inside, rfl⟩⟩
  · rintro ⟨key, found⟩
    exact ((listed.keyed key e).mp found).1

theorem Listed.oneKey (key key' : List UInt8) (e : MempoolTx)
    (found : q.sortedTxsMap.lookup key = some e)
    (found' : q.sortedTxsMap.lookup key' = some e) : key = key' :=
  ((listed.keyed key e).mp found).2.trans ((listed.keyed key' e).mp found').2.symm

omit listed in
theorem Indexed.agree (indexed : Indexed keys q) : Agree q where
  once := indexed.listed.once
  arrivals := indexed.listed.arrivals
  mapped := indexed.listed.mapped
  arrivalMapped e := by
    simp only [indexed.listed.arrivalKeyed]
    exact indexed.listed.mapped e
  oneKey := indexed.listed.oneKey
  arrivalOneKey := by
    simp only [indexed.listed.arrivalKeyed]
    exact indexed.listed.oneKey
  recorded address nonce e := by
    refine ⟨indexed.synced.listed address nonce e, ?_⟩
    rintro ⟨inside, rfl, rfl⟩
    exact indexed.synced.recorded e inside
  maxNonce address am found := by
    refine ⟨indexed.attained address am found, ?_⟩
    intro nonce held
    obtain ⟨e, entry⟩ := (mem_iff_lookup am.items nonce).mp held
    exact indexed.synced.maxNonce_ge address am found nonce e entry

theorem Listed.key_inj {x e : MempoolTx} (inside : x ∈ q.sortedTxs)
    (inside' : e ∈ q.sortedTxs) (same : keys.txKey x.tx = keys.txKey e.tx) : x = e := by
  have first := (listed.keyed _ x).mpr ⟨inside, rfl⟩
  have second := (listed.keyed _ e).mpr ⟨inside', rfl⟩
  rw [same, second] at first
  exact (Option.some.inj first).symm

theorem removeElement_listed {e : MempoolTx}
    (inside : e ∈ q.sortedTxs) : Listed keys (q.removeElement keys e) := by
  have own : q.bcTxsMap.lookup (keys.txKey e.tx) = some e := by
    rw [listed.arrivalKeyed]
    exact (listed.keyed _ e).mpr ⟨inside, rfl⟩
  refine ⟨listed.once.erase e, ?_, ?_, ?_⟩
  · unfold removeElement
    rw [own]
    exact listed.arrivals.erase e
  · intro key x
    dsimp only [removeElement]
    rw [lookup_erase_if, listed.once.mem_erase_iff]
    by_cases same : key = keys.txKey e.tx
    · rw [if_pos same]
      refine ⟨fun found => by contradiction, ?_⟩
      rintro ⟨⟨differ, present⟩, key_eq⟩
      exact absurd (listed.key_inj present inside (key_eq.symm.trans same)) differ
    rw [if_neg same, listed.keyed]
    refine ⟨?_, fun found => ⟨found.1.2, found.2⟩⟩
    rintro ⟨present, key_eq⟩
    refine ⟨⟨?_, present⟩, key_eq⟩
    rintro rfl
    exact same key_eq
  · intro key
    dsimp only [removeElement]
    rw [lookup_erase_if, lookup_erase_if, listed.arrivalKeyed]

omit listed in
theorem foldl_removeElement_listed (stale : List MempoolTx) (listed : Listed keys q)
    (distinct : stale.Nodup) (inside : ∀ e ∈ stale, e ∈ q.sortedTxs) :
    Listed keys (stale.foldl (fun acc e => acc.removeElement keys e) q) := by
  induction stale generalizing q with
  | nil => exact listed
  | cons e rest ih =>
    obtain ⟨apart, distinct_rest⟩ := List.nodup_cons.mp distinct
    refine ih (removeElement_listed listed (inside e List.mem_cons_self)) distinct_rest ?_
    intro x later
    refine (listed.once.mem_erase_iff).mpr ⟨?_, inside x (List.mem_cons_of_mem _ later)⟩
    rintro rfl
    exact apart later

theorem Listed.congr {q' : GasTxQueue}
    (list : q'.sortedTxs = q.sortedTxs) (map : q'.sortedTxsMap = q.sortedTxsMap)
    (arrivals : q'.bcTxs = q.bcTxs) (arrivalMap : q'.bcTxsMap = q.bcTxsMap) : Listed keys q' := by
  refine ⟨?_, ?_, ?_, ?_⟩
  · rw [list]
    exact listed.once
  · rw [list, arrivals]
    exact listed.arrivals
  · rw [list, map]
    exact listed.keyed
  · rw [map, arrivalMap]
    exact listed.arrivalKeyed

theorem deleteItem_listed (e : MempoolTx) :
    Listed keys (q.deleteItem e) := by
  refine listed.congr (deleteItem_sortedTxs q e) (deleteItem_sortedTxsMap q e) ?_ ?_
  all_goals
    unfold deleteItem
    split
    · rfl
    · dsimp only
      split <;> rfl

omit listed

theorem calculateMaxNonce_mem (items : AssocMap Nat MempoolTx) (nonempty : items.size ≠ 0) :
    calculateMaxNonce items ∈ items := by
  rcases (foldl_larger_spec Sigma.fst items.entries 0).2.2 with zero | ⟨entry, inside, same⟩
  · obtain ⟨nonce, e, found⟩ := exists_lookup_of_size_ne_zero items nonempty
    have bound := le_calculateMaxNonce items found
    have same : nonce = calculateMaxNonce items := by
      unfold calculateMaxNonce at bound ⊢
      omega
    rw [← same, mem_iff_lookup]
    exact ⟨e, found⟩
  · rw [mem_iff_lookup]
    refine ⟨entry.2, ?_⟩
    unfold calculateMaxNonce
    rw [← same, lookup_eq_some_iff]
    exact inside

theorem record_attained (attained : Attained q) {address : Address} {am : AddrMap}
    (own : am.maxNonce ∈ am.items) : Attained (q.record address am) :=
  forall_insert own attained

theorem erase_attained (attained : Attained q) (address : Address) :
    Attained { q with addrTxs := q.addrTxs.erase address } :=
  fun a am found => attained a am (lookup_erase_eq_some.mp found).2

theorem deleteItem_attained (attained : Attained q) (e : MempoolTx) :
    Attained (q.deleteItem e) := by
  unfold deleteItem
  split
  · exact attained
  dsimp only
  split
  · exact erase_attained attained e.fromAddr
  · rename_i some_left
    exact record_attained attained (calculateMaxNonce_mem _ some_left)

variable (indexed : Indexed keys q)
include indexed

theorem remove_indexed {e : MempoolTx} (inside : e ∈ q.sortedTxs) :
    Indexed keys (q.remove keys e) where
  synced := (remove_without indexed.synced inside).synced indexed.synced
  listed := deleteItem_listed (removeElement_listed indexed.listed inside) e
  attained := deleteItem_attained (q := q.removeElement keys e) indexed.attained e

theorem removeByKey_indexed (key : List UInt8) :
    Indexed keys (q.removeByKey key).2 := by
  cases found : q.sortedTxsMap.lookup key with
  | none =>
    rw [removeByKey_of_missing found]
    exact indexed
  | some e =>
    rw [removeByKey_eq indexed.synced found]
    exact remove_indexed indexed ((indexed.listed.keyed key e).mp found).1

/-- CleanItems drops the smallest nonces of an address, so a record that stays keeps its largest
one. -/
theorem cleanItems_indexed (address : Address) (nonce : Nat) :
    Indexed keys (q.cleanItems keys address nonce) := by
  have synced := indexed.synced
  refine ⟨(cleanItems_without synced address nonce).synced synced, ?_, ?_⟩
  · unfold cleanItems
    cases outer : q.addrTxs.lookup address with
    | none => exact indexed.listed
    | some am =>
      have distinct := (itemsWhere_distinct synced outer fun n => decide (n ≤ nonce)).imp
        (fun {x y} differ (same : x = y) => differ (congrArg MempoolTx.nonce same))
      have cleaned := foldl_removeElement_listed _ indexed.listed distinct
        (fun e stale => ((mem_itemsWhere synced outer _ e).mp stale).1)
      dsimp only
      split
      all_goals exact cleaned.congr rfl rfl rfl rfl
  · unfold cleanItems
    cases outer : q.addrTxs.lookup address with
    | none => exact indexed.attained
    | some am =>
      have cleaned : Attained ((am.itemsWhere fun n => decide (n ≤ nonce)).foldl
          (fun acc e => acc.removeElement keys e) q) := by
        unfold Attained
        rw [foldl_removeElement_addrTxs]
        exact indexed.attained
      dsimp only
      split
      · exact erase_attained cleaned address
      rename_i some_left
      refine record_attained cleaned ?_
      obtain ⟨n, e, found⟩ := exists_lookup_of_size_ne_zero _ some_left
      rw [lookup_keep, Option.filter_eq_some_iff] at found
      have bound := synced.maxNonce_ge address am outer n e found.1
      have above : nonce < n := of_decide_eq_true found.2
      obtain ⟨top, top_found⟩ := (mem_iff_lookup am.items am.maxNonce).mp
        (indexed.attained address am outer)
      refine (mem_iff_lookup _ _).mpr ⟨top, ?_⟩
      rw [lookup_keep, Option.filter_eq_some_iff]
      exact ⟨top_found, decide_eq_true (above.trans_le bound)⟩

omit indexed

section

variable {q' : GasTxQueue} {t : MempoolTx}

/-- The queue without the transaction that `t` replaces. -/
def vacated (keys : KeyRegime) (q : GasTxQueue) (t : MempoolTx) : GasTxQueue :=
  match q.item t.fromAddr t.nonce with
  | some old => q.removeElement keys old
  | none => q

theorem insert_fields (synced : Synced keys q) (accepted : q.insert keys t = .ok q') : ∃ txs, q' =
      { q.vacated keys t with
        sortedTxs := txs
        sortedTxsMap := (q.vacated keys t).sortedTxsMap.insert
          (keys.txOrTxHashToKey t.tx t.txHash t.height) t
        bcTxs := (q.vacated keys t).bcTxs ++ [t]
        bcTxsMap := (q.vacated keys t).bcTxsMap.insert
          (keys.txOrTxHashToKey t.tx t.txHash t.height) t
        addrTxs := q.addrTxs.insert t.fromAddr
          ⟨((q.addrTxs.lookup t.fromAddr).getD ⟨∅, 0⟩).items.insert t.nonce t,
            max ((q.addrTxs.lookup t.fromAddr).getD ⟨∅, 0⟩).maxNonce t.nonce⟩ } := by
  unfold insert checkRepeatedAndAddItem at accepted
  unfold vacated
  by_cases larger : ((q.addrTxs.lookup t.fromAddr).getD ⟨∅, 0⟩).maxNonce < t.nonce
  · have missing : q.item t.fromAddr t.nonce = none := by
      cases found : q.item t.fromAddr t.nonce with
      | none => rfl
      | some e =>
        have bound := synced.item_le_maxNonce found
        omega
    obtain ⟨txs, inserted⟩ := insertElement_isSome (synced.fresh missing)
    rw [if_pos larger, inserted] at accepted
    rw [missing, Nat.max_eq_right (Nat.le_of_lt larger)]
    exact ⟨txs, (Except.ok.inj accepted).symm⟩
  rw [if_neg larger, item_getD] at accepted
  rw [Nat.max_eq_left (Nat.not_lt.mp larger)]
  cases found : q.item t.fromAddr t.nonce with
  | none =>
    obtain ⟨txs, inserted⟩ := insertElement_isSome (synced.fresh found)
    rw [found] at accepted
    rw [inserted] at accepted
    exact ⟨txs, (Except.ok.inj accepted).symm⟩
  | some old =>
    rw [found] at accepted
    dsimp only at accepted
    split at accepted
    · contradiction
    rename_i refused
    split at refused
    · contradiction
    obtain ⟨am, outer, entry⟩ := Option.bind_eq_some_iff.mp found
    obtain ⟨txs, result, _⟩ := replaced_spec synced outer entry
    have am_eq : (q.addrTxs.lookup t.fromAddr).getD ⟨∅, 0⟩ = am := by rw [outer]; rfl
    rw [am_eq, reorganizeElements_eq synced outer, result] at refused
    cases refused
    rw [am_eq]
    exact ⟨txs, (Except.ok.inj accepted).symm⟩

theorem insert_attained (synced : Synced keys q) (attained : Attained q)
    (accepted : q.insert keys t = .ok q') : Attained q' := by
  obtain ⟨_, rfl⟩ := insert_fields synced accepted
  refine record_attained (q := q) attained ?_
  rw [mem_insert]
  cases outer : q.addrTxs.lookup t.fromAddr with
  | none => exact .inl (Nat.zero_max t.nonce)
  | some am =>
    rcases Nat.le_total am.maxNonce t.nonce with upper | lower
    · exact .inl (Nat.max_eq_right upper)
    refine .inr ?_
    have top : max am.maxNonce t.nonce = am.maxNonce := Nat.max_eq_left lower
    exact top.symm ▸ attained t.fromAddr am outer

theorem vacated_listed (indexed : Indexed keys q) (t : MempoolTx) :
    Listed keys (q.vacated keys t) := by
  unfold vacated
  cases found : q.item t.fromAddr t.nonce with
  | none => exact indexed.listed
  | some old =>
    exact removeElement_listed indexed.listed (indexed.synced.listed _ _ _ found).1

/-- The keys agree for the transaction, and those that share its key are the ones it
replaces. -/
structure OwnKey (keys : KeyRegime) (q : GasTxQueue) (t : MempoolTx) : Prop where
  carried : keys.txOrTxHashToKey t.tx t.txHash t.height = keys.txKey t.tx
  apart : ∀ e ∈ q.sortedTxs, keys.txKey e.tx = keys.txKey t.tx →
    e.fromAddr = t.fromAddr ∧ e.nonce = t.nonce

theorem insert_listed (indexed : Indexed keys q) (own : OwnKey keys q t)
    (inserted : Inserted keys q q' t) (accepted : q.insert keys t = .ok q') : Listed keys q' := by
  have rest := vacated_listed indexed t
  have mem_vacated : ∀ e, e ∈ (q.vacated keys t).sortedTxs ↔
      e ∈ q.sortedTxs ∧ ¬ (e.fromAddr = t.fromAddr ∧ e.nonce = t.nonce) := by
    intro e
    rw [← indexed.synced.mem_rest t e]
    unfold vacated
    cases q.item t.fromAddr t.nonce <;> rfl
  have list : q'.sortedTxs.Perm (t :: (q.vacated keys t).sortedTxs) := by
    refine inserted.list.trans (List.Perm.of_eq (congrArg _ ?_))
    unfold vacated
    cases q.item t.fromAddr t.nonce <;> rfl
  have fresh : ∀ e ∈ (q.vacated keys t).sortedTxs, keys.txKey e.tx ≠ keys.txKey t.tx := by
    intro e inside same
    obtain ⟨before, elsewhere⟩ := (mem_vacated e).mp inside
    exact elsewhere (own.apart e before same)
  obtain ⟨_, rfl⟩ := insert_fields indexed.synced accepted
  refine ⟨?_, ?_, ?_, ?_⟩
  · refine list.nodup_iff.mpr (List.nodup_cons.mpr ⟨?_, rest.once⟩)
    intro inside
    exact ((mem_vacated t).mp inside).2 ⟨rfl, rfl⟩
  · refine List.Perm.trans ?_ list.symm
    exact (List.perm_append_singleton t _).trans (rest.arrivals.cons t)
  · intro key e
    rw [list.mem_iff, List.mem_cons]
    rw [own.carried, lookup_insert_if]
    by_cases same : key = keys.txKey t.tx
    · rw [if_pos same]
      constructor
      · intro found
        cases found
        exact ⟨.inl rfl, same⟩
      · rintro ⟨rfl | inside, key_eq⟩
        · rfl
        · exact absurd (key_eq.symm.trans same) (fresh e inside)
    · rw [if_neg same, rest.keyed]
      constructor
      · rintro ⟨inside, key_eq⟩
        exact ⟨.inr inside, key_eq⟩
      · rintro ⟨rfl | inside, key_eq⟩
        · exact absurd key_eq same
        · exact ⟨inside, key_eq⟩
  · intro key
    rw [lookup_insert_if, lookup_insert_if, rest.arrivalKeyed]

end

/-- The call inserts under the key that later calls remove by, or removes an element still in the
list. -/
def Keyed (keys : KeyRegime) (q : GasTxQueue) : Call → Prop
  | .insert t => OwnKey keys q t
  | .remove e => e ∈ q.sortedTxs
  | _ => True

theorem call_indexed (indexed : Indexed keys q) (c : Call) (keyed : Keyed keys q c) :
    Indexed keys (call keys q c) := by
  cases c with
  | insert t =>
    rcases insert_spec indexed.synced t with ⟨q', accepted, inserted⟩ | ⟨refused, _⟩
    · simp only [call, accepted]
      exact ⟨inserted.synced indexed.synced keyed.carried,
        insert_listed indexed keyed inserted accepted,
        insert_attained indexed.synced indexed.attained accepted⟩
    · simp only [call, refused]
      exact indexed
  | remove e => exact remove_indexed indexed keyed
  | removeByKey key => exact removeByKey_indexed indexed key
  | cleanItems address nonce => exact cleanItems_indexed indexed address nonce

/-- The indexes agree in every state of a run whose insertions go under the key that removals use
and whose removals are of elements still in the list. -/
theorem visited_agree (keys : KeyRegime) (txPriceBump : Int) (calls : List Call)
    (keyed : Run.Along (call keys) (Keyed keys) (newGasTxQueue txPriceBump) calls) :
    ∀ q ∈ Run.visited (call keys) (newGasTxQueue txPriceBump) calls, Agree q := by
  intro q visited
  exact (Run.invariant_visited (Indexed keys) (fun _ c => call_indexed (c := c))
    (newGasTxQueue_indexed keys txPriceBump) keyed q visited).agree

def arrivingTx (byte : UInt8) (nonce : Nat) (gasPrice : Int) : MempoolTx where
  tx := [byte]
  height := 10
  fromAddr := "sender"
  nonce := nonce
  gasPrice := gasPrice
  txHash := List.replicate 32 1

/-- A replacement, a cleaned nonce and a removal by key. -/
def replacingCalls : List Call :=
  [.insert (arrivingTx 1 0 100), .insert (arrivingTx 2 1 100), .insert (arrivingTx 3 1 200),
    .cleanItems "sender" 0, .removeByKey [3]]

theorem visited_agree_replacingCalls :
    (∀ q ∈ Run.visited (call KeyRegime.raw) (newGasTxQueue 10) replacingCalls, Agree q) ∧
      (Run.visited (call KeyRegime.raw) (newGasTxQueue 10) replacingCalls).map
        (fun q => q.sortedTxs.map fun e => (e.tx, e.nonce)) =
          [[], [([1], 0)], [([1], 0), ([2], 1)], [([1], 0), ([3], 1)], [([3], 1)], []] := by
  refine ⟨visited_agree KeyRegime.raw 10 replacingCalls ?_, by decide⟩
  exact ⟨⟨by decide, by decide⟩, ⟨by decide, by decide⟩, ⟨by decide, by decide⟩, trivial, trivial,
    trivial⟩

/-- Raw bytes are their own hash, and from height 10 on a transaction goes by the
hash it carries. -/
def venusAtTen : KeyRegime where
  txKey := id
  higherThanVenus height := decide (10 ≤ height)

/-- A transaction that carries the hash of the rule before height 10 and is inserted there stays
behind, when removed, everywhere but in the sorted list and the address record. And a second Remove
of an element takes away the record of the transaction that came under its nonce. -/
theorem removed_still_indexed : (let t := arrivingTx 1 0 100
      let q := Run.exec (call venusAtTen) (newGasTxQueue 10) [.insert t, .remove t]
      q.sortedTxs = [] ∧ q.item t.fromAddr t.nonce = none ∧ q.bcTxs = [t] ∧
        q.sortedTxsMap.lookup t.txHash = some t ∧ ¬ Agree q) ∧
    (let t := arrivingTx 1 0 100
      let next := arrivingTx 2 0 100
      let q := Run.exec (call KeyRegime.raw) (newGasTxQueue 10)
        [.insert t, .remove t, .insert next, .remove t]
      q.sortedTxs = [next] ∧ q.item next.fromAddr next.nonce = none ∧ ¬ Agree q) := by
  refine ⟨⟨by decide, by decide, by decide, by decide, ?_⟩, by decide, by decide, ?_⟩
  · intro agree
    have same := agree.arrivals.length_eq
    revert same
    decide
  · intro agree
    have recorded := agree.recorded "sender" 0 (arrivingTx 2 0 100)
    revert recorded
    decide

end Exchain.Mempool.GasTxQueue
