import Exchain.Mempool.PendingPoolConsistency

namespace Exchain.Mempool.PendingPool

open AList
open List
variable {txID : List UInt8 → String}

/-- The operations that change a pending pool; a transaction is validated before it is added. -/
inductive Op
  | add (blacklist : List Address) (t : MempoolTx)
  | remove (address : Address) (nonce : Nat)
  | removeByHash (txHash : String)
  | handlePending (addressNonce : AssocMap Address Nat)
  | handlePeriod

def step (txID : List UInt8 → String) (p : PendingPool) : Op → PendingPool
  | .add blacklist t =>
    match p.validate txID t.fromAddr t.tx with
    | .ok _ => p.addTx txID blacklist t
    | .error _ => p
  | .remove address nonce => p.removeTx txID address nonce
  | .removeByHash txHash => p.removeTxByHash txHash
  | .handlePending addressNonce => p.handlePendingTx txID addressNonce
  | .handlePeriod => p.handlePeriodCounter txID

/-- No transaction is added over another of the same sender and nonce, and no counted address loses
its last one to handlePendingTx. -/
def SlotsKept (txID : List UInt8 → String) (p : PendingPool) : Op → Prop
  | .add blacklist t =>
    p.validate txID t.fromAddr t.tx = .ok () → blacklisted blacklist t = false →
      p.getTx t.fromAddr t.nonce = none
  | .handlePending addressNonce =>
    ∀ address accountNonce, addressNonce.lookup address = some accountNonce →
      address ∈ p.periodCounter → ∃ nonce t, p.getTx address nonce = some t ∧ accountNonce < nonce
  | _ => True

theorem newPendingPool_sound (maxSize reserveBlocks maxTxPerAddress : Nat) :
    Sound txID (newPendingPool maxSize reserveBlocks maxTxPerAddress) where
  linked :=
    { same_txs := by simp [newPendingPool, getTx]
      own_slot := by simp [newPendingPool, getTx]
      inhabited := by simp [newPendingPool] }
  size_le := Nat.zero_le _
  count_le _ := Nat.zero_le _
  counted := by simp [newPendingPool]

variable {address : Address} {p : PendingPool} {txs : AssocMap Nat MempoolTx}

variable (linked : Linked txID p)
include linked

theorem erase_dropped
    {nonce : Nat} {t : MempoolTx} (outer : p.addressTxsMap.lookup address = some txs)
    (inner : txs.lookup nonce = some t) :
    Dropped (fun a n => decide (a = address) && decide (n = nonce)) p
      ({ p with txsMap := p.txsMap.erase (txID t.tx) }.settle address (txs.erase nonce)) := by
  refine Dropped.of_address outer (txs.erase nonce) _ ?_
    (settle_lookup _ address · _) linked ?_ ?_ (settle_maxSize ..) (settle_maxTxPerAddress ..)
  · intro n
    simp [lookup_erase_if]
  · intro n t' gone found
    obtain rfl := of_decide_eq_true gone
    cases inner.symm.trans found
    simp
  · intro h missed
    have differ := missed nonce t (by simp) inner
    simp [differ]

theorem removeTx_dropped (address : Address) (nonce : Nat) :
    Dropped (fun a n => decide (a = address) && decide (n = nonce)) p
      (p.removeTx txID address nonce) := by
  unfold removeTx
  cases outer : p.addressTxsMap.lookup address with
  | none => exact Dropped.of_absent linked outer
  | some txs =>
    dsimp only
    cases slot : txs.lookup nonce with
    | none =>
      refine Dropped.of_address outer txs _ ?_ (settle_lookup p address · txs)
        linked ?_ ?_ (settle_maxSize ..) (settle_maxTxPerAddress ..)
      · intro n
        by_cases same : n = nonce
        · subst same
          simpa using slot
        · simp [same]
      · intro n t gone found
        obtain rfl := of_decide_eq_true gone
        simp [slot] at found
      · simp
    | some t => exact erase_dropped linked outer slot

theorem removeTxByHash_dropped (txHash : String) :
    ∃ drop, Dropped drop p (p.removeTxByHash txHash) := by
  unfold removeTxByHash
  cases entry : p.txsMap.lookup txHash with
  | none => exact ⟨_, Dropped.refl linked⟩
  | some t =>
    obtain ⟨slot, rfl⟩ := (linked.same_txs txHash t).mp entry
    obtain ⟨_, outer, inner⟩ := lookup_of_getTx p slot
    simp only [outer]
    exact ⟨_, erase_dropped linked outer inner⟩

omit linked

theorem lookup_unpassed (txs : AssocMap Nat MempoolTx) (accountNonce n : Nat) :
    (txs.keep fun nonce _ => decide (accountNonce < nonce)).lookup n =
      if decide (n ≤ accountNonce) then none else txs.lookup n := by
  rw [lookup_keep]
  by_cases passed : n ≤ accountNonce
  · have above : ¬ accountNonce < n := by omega
    cases txs.lookup n <;> simp [Option.filter, passed, above]
  · have above : accountNonce < n := by omega
    cases txs.lookup n <;> simp [Option.filter, passed, above]

theorem handlePendingAddr_getTx (p : PendingPool) (address : Address) (accountNonce : Nat)
    (a : Address) (n : Nat) : (p.handlePendingAddr txID address accountNonce).getTx a n =
      if decide (a = address) && decide (n ≤ accountNonce) then none else p.getTx a n := by
  unfold handlePendingAddr
  cases outer : p.addressTxsMap.lookup address with
  | none =>
    by_cases same : a = address
    · subst same
      simp [getTx, outer]
    · simp [same]
  | some txs =>
    refine Dropped.getTx_of_left outer _ _ (lookup_unpassed txs accountNonce) (fun other => ?_) a n
    dsimp only
    split
    · rw [lookup_erase_if]
    · rw [lookup_insert_if]

theorem handlePendingAddr_dropped (linked : Linked txID p) (address : Address)
    (accountNonce : Nat) : Dropped (fun a n => decide (a = address) && decide (n ≤ accountNonce)) p
      (p.handlePendingAddr txID address accountNonce) := by
  unfold handlePendingAddr
  cases outer : p.addressTxsMap.lookup address with
  | none => exact Dropped.of_absent linked outer
  | some txs =>
    refine Dropped.of_address outer
      (txs.keep fun nonce _ => decide (accountNonce < nonce)) _ ?_ ?_ linked ?_ ?_ rfl rfl
    · exact lookup_unpassed txs accountNonce
    · intro a
      dsimp only
      split
      · rw [lookup_erase_if]
      · rw [lookup_insert_if]
    · intro n t gone found
      rw [lookup_eraseAll, if_pos]
      refine mem_map.mpr ⟨⟨n, t⟩, (lookup_eq_some_iff _ _ _).mp ?_, rfl⟩
      rw [lookup_keep, found]
      simpa [Option.filter] using gone
    · intro h missed
      rw [lookup_eraseAll, if_neg]
      intro inside
      obtain ⟨⟨n, t⟩, stale, rfl⟩ := mem_map.mp inside
      have found := (lookup_eq_some_iff _ _ _).mpr stale
      rw [lookup_keep, Option.filter_eq_some_iff] at found
      exact missed n t found.2 found.1 rfl

@[simp] theorem handlePendingAddr_periodCounter (p : PendingPool) (address : Address)
    (accountNonce : Nat) :
    (p.handlePendingAddr txID address accountNonce).periodCounter = p.periodCounter := by
  unfold handlePendingAddr
  split <;> rfl

theorem handlePendingAddrs_spec (entries : List (Σ _ : Address, Nat)) (linked : Linked txID p) :
    Dropped (fun a n => entries.any fun e => decide (a = e.1) && decide (n ≤ e.2)) p
        (entries.foldl (fun acc e => acc.handlePendingAddr txID e.1 e.2) p) ∧
      (entries.foldl (fun acc e => acc.handlePendingAddr txID e.1 e.2) p).periodCounter =
        p.periodCounter := by
  induction entries generalizing p with
  | nil => exact ⟨Dropped.refl linked, rfl⟩
  | cons e rest ih =>
    have first := handlePendingAddr_dropped linked e.1 e.2
    obtain ⟨second, counter⟩ := ih (first.linked linked)
    refine ⟨?_, counter.trans (handlePendingAddr_periodCounter p e.1 e.2)⟩
    simpa only [any_cons, foldl_cons] using first.trans second

theorem handlePendingAddrs_getTx (entries : List (Σ _ : Address, Nat)) (p : PendingPool)
    (a : Address) (n : Nat) :
    (entries.foldl (fun acc e => acc.handlePendingAddr txID e.1 e.2) p).getTx a n =
      if entries.any fun e => decide (a = e.1) && decide (n ≤ e.2) then none else p.getTx a n := by
  induction entries generalizing p with
  | nil => rfl
  | cons e rest ih =>
    rw [foldl_cons, ih, handlePendingAddr_getTx, any_cons]
    cases rest.any _ <;> simp

/-- handlePendingTx deletes exactly the transactions the given accounts have passed. -/
theorem handlePendingTx_getTx (p : PendingPool)
    (addressNonce : AssocMap Address Nat) (address : Address) (nonce : Nat) :
    (p.handlePendingTx txID addressNonce).getTx address nonce =
      match addressNonce.lookup address with
      | some accountNonce => if nonce ≤ accountNonce then none else p.getTx address nonce
      | none => p.getTx address nonce := by
  rw [handlePendingTx, handlePendingAddrs_getTx]
  cases entry : addressNonce.lookup address with
  | none =>
    have outside := lookup_eq_none.mp entry
    have untouched : (addressNonce.entries.any fun e =>
        decide (address = e.1) && decide (nonce ≤ e.2)) = false := by
      rw [any_eq_false]
      intro e inside hit
      obtain ⟨same, _⟩ := Bool.and_eq_true_iff.mp hit
      exact outside (of_decide_eq_true same ▸ mem_keys_of_mem inside)
    simp [untouched]
  | some accountNonce =>
    have inside := (lookup_eq_some_iff _ _ _).mp entry
    by_cases passed : nonce ≤ accountNonce
    · have hit : (addressNonce.entries.any fun e =>
          decide (address = e.1) && decide (nonce ≤ e.2)) = true :=
        any_eq_true.mpr ⟨_, inside, by simp [passed]⟩
      simp [hit, passed]
    have missed : (addressNonce.entries.any fun e =>
        decide (address = e.1) && decide (nonce ≤ e.2)) = false := by
      rw [any_eq_false]
      rintro ⟨a, n⟩ member hit
      obtain ⟨same, small⟩ := Bool.and_eq_true_iff.mp hit
      obtain rfl := of_decide_eq_true same
      have unique := addressNonce.nodupKeys.eq_of_mk_mem inside member
      exact passed (unique ▸ of_decide_eq_true small)
    simp [missed, passed]

variable (sound : Sound txID p)
include sound

theorem removeTx_sound (address : Address)
    (nonce : Nat) : Sound txID (p.removeTx txID address nonce) := by
  refine sound.dropped (removeTx_dropped sound.linked address nonce) ?_
  unfold removeTx
  cases outer : p.addressTxsMap.lookup address with
  | none => exact sound.counted
  | some txs =>
    dsimp only
    split
    all_goals exact settle_counted _ _ _ fun a counted _ => sound.counted a counted

theorem removeTxByHash_sound (txHash : String) :
    Sound txID (p.removeTxByHash txHash) := by
  obtain ⟨_, dropped⟩ := removeTxByHash_dropped sound.linked txHash
  refine sound.dropped dropped ?_
  unfold removeTxByHash
  cases entry : p.txsMap.lookup txHash with
  | none => exact sound.counted
  | some t =>
    dsimp only
    split
    · exact sound.counted
    · exact settle_counted _ _ _ fun a counted _ => sound.counted a counted

omit sound in
theorem handlePeriodAddr_lookup_of_ne (p : PendingPool) {a : Address}
    (txs : AssocMap Nat MempoolTx) (differ : a ≠ address) :
    (p.handlePeriodAddr txID address txs).addressTxsMap.lookup a = p.addressTxsMap.lookup a := by
  unfold handlePeriodAddr
  dsimp only
  split
  · exact lookup_erase_ne differ
  · rfl

theorem handlePeriodAddr_sound (found : p.addressTxsMap.lookup address = some txs) :
    Sound txID (p.handlePeriodAddr txID address txs) := by
  unfold handlePeriodAddr
  dsimp only
  split
  · have dropped : Dropped (fun a n => decide (a = address) && true) p
        { p with
          addressTxsMap := p.addressTxsMap.erase address
          txsMap := p.txsMap.eraseAll (txs.entries.map fun e => txID e.2.tx)
          periodCounter := p.periodCounter.erase address } := by
      refine Dropped.of_address found ∅ (fun _ => true) ?_ ?_ sound.linked ?_ ?_ rfl rfl
      · simp
      · intro a
        have empty : (∅ : AssocMap Nat MempoolTx).size = 0 := rfl
        rw [lookup_erase_if]
        rfl
      · intro n t _ slot
        rw [lookup_eraseAll, if_pos]
        exact mem_map.mpr ⟨⟨n, t⟩, (lookup_eq_some_iff _ _ _).mp slot, rfl⟩
      · intro h missed
        rw [lookup_eraseAll, if_neg]
        intro inside
        obtain ⟨⟨n, t⟩, entry, rfl⟩ := mem_map.mp inside
        exact missed n t rfl ((lookup_eq_some_iff _ _ _).mpr entry) rfl
    refine sound.dropped dropped fun a counted => ?_
    obtain ⟨differ, before⟩ := mem_erase.mp counted
    obtain ⟨n, t, slot⟩ := sound.counted a before
    refine ⟨n, t, ?_⟩
    rw [dropped.slots]
    simpa [differ] using slot
  · refine ⟨⟨sound.linked.same_txs, sound.linked.own_slot, sound.linked.inhabited⟩,
      sound.size_le, sound.count_le, fun a counted => ?_⟩
    rcases (mem_insert _).mp counted with rfl | before
    · obtain ⟨n, t, slot⟩ := sound.linked.inhabited a txs found
      exact ⟨n, t, (getTx_of_lookup p found n).trans slot⟩
    · exact sound.counted a before

omit sound in
theorem handlePeriodAddrs_sound (entries : List (Σ _ : Address, AssocMap Nat MempoolTx))
    (distinct : entries.NodupKeys) (sound : Sound txID p)
    (present : ∀ e ∈ entries, p.addressTxsMap.lookup e.1 = some e.2) :
    Sound txID (entries.foldl (fun acc e => acc.handlePeriodAddr txID e.1 e.2) p) := by
  induction entries generalizing p with
  | nil => exact sound
  | cons e rest ih =>
    obtain ⟨fresh, distinct_rest⟩ := nodupKeys_cons.mp distinct
    have next := handlePeriodAddr_sound sound (present e mem_cons_self)
    refine ih distinct_rest next fun e' later => ?_
    have differ : e'.1 ≠ e.1 := fun same => fresh (same ▸ mem_keys_of_mem later)
    rw [handlePeriodAddr_lookup_of_ne p e.2 differ]
    exact present e' (mem_cons_of_mem _ later)

theorem handlePeriodCounter_sound :
    Sound txID (p.handlePeriodCounter txID) :=
  handlePeriodAddrs_sound _ p.addressTxsMap.nodupKeys sound
    fun _ entry => (lookup_eq_some_iff _ _ _).mpr entry

theorem handlePendingTx_counted_iff (addressNonce : AssocMap Address Nat) :
    (∀ address, address ∈ (p.handlePendingTx txID addressNonce).periodCounter →
        ∃ nonce t, (p.handlePendingTx txID addressNonce).getTx address nonce = some t) ↔
      SlotsKept txID p (.handlePending addressNonce) := by
  have counter : (p.handlePendingTx txID addressNonce).periodCounter = p.periodCounter :=
    (handlePendingAddrs_spec addressNonce.entries sound.linked).2
  rw [counter]
  constructor
  · intro all address accountNonce entry counted
    obtain ⟨nonce, t, slot⟩ := all address counted
    rw [handlePendingTx_getTx, entry] at slot
    dsimp only at slot
    split at slot
    · contradiction
    exact ⟨nonce, t, slot, by omega⟩
  intro kept address counted
  cases entry : addressNonce.lookup address with
  | none =>
    obtain ⟨nonce, t, slot⟩ := sound.counted address counted
    exact ⟨nonce, t, by rw [handlePendingTx_getTx, entry]; exact slot⟩
  | some accountNonce =>
    obtain ⟨nonce, t, slot, _⟩ := kept address accountNonce entry counted
    have later : ¬ nonce ≤ accountNonce := by omega
    refine ⟨nonce, t, ?_⟩
    rw [handlePendingTx_getTx, entry]
    simpa only [if_neg later] using slot

omit sound

theorem validate_ok_iff (p : PendingPool) (address : Address) (tx : List UInt8) :
    p.validate txID address tx = .ok () ↔ p.txsMap.lookup (txID tx) = none ∧ p.size < p.maxSize ∧
        p.txCount address < p.maxTxPerAddress := by
  unfold validate hasTx
  split
  · rename_i present
    rw [Option.isSome_iff_ne_none] at present
    simp [present]
  rename_i absent
  rw [Option.not_isSome_iff_eq_none] at absent
  split
  · have full : ¬ p.size < p.maxSize := by omega
    simp [full]
  have room : p.size < p.maxSize := by omega
  split
  · have limit : ¬ p.txCount address < p.maxTxPerAddress := by omega
    simp [limit]
  · have below : p.txCount address < p.maxTxPerAddress := by omega
    simp [absent, room, below]

section

variable {p : PendingPool} {blacklist : List Address} {t : MempoolTx}

theorem addTx_blacklisted (p : PendingPool) (blocked : blacklisted blacklist t = true) :
    p.addTx txID blacklist t = p := by
  rw [addTx, if_pos blocked]

theorem addTx_getTx (p : PendingPool) (allowed : blacklisted blacklist t = false)
    (address : Address) (nonce : Nat) : (p.addTx txID blacklist t).getTx address nonce =
      if address = t.fromAddr ∧ nonce = t.nonce then some t else p.getTx address nonce := by
  rw [addTx, if_neg (by simp [allowed])]
  by_cases same : address = t.fromAddr
  · subst same
    simp only [getTx, lookup_insert, Option.bind_some, lookup_insert_if]
    cases p.addressTxsMap.lookup t.fromAddr <;> simp
  · simp [getTx, same]

theorem addTx_lookup (p : PendingPool) (allowed : blacklisted blacklist t = false) (h : String) :
    (p.addTx txID blacklist t).txsMap.lookup h =
      if h = txID t.tx then some t else p.txsMap.lookup h := by
  rw [addTx, if_neg (by simp [allowed]), lookup_insert_if]

theorem addTx_linked (linked : Linked txID p) (allowed : blacklisted blacklist t = false)
    (fresh : p.txsMap.lookup (txID t.tx) = none) (free : p.getTx t.fromAddr t.nonce = none) :
    Linked txID (p.addTx txID blacklist t) where
  same_txs h t' := by
    rw [addTx_lookup p allowed, addTx_getTx p allowed]
    by_cases slot : t'.fromAddr = t.fromAddr ∧ t'.nonce = t.nonce
    · -- nothing but `t` can be filed in its slot, so the hash decides
      have vacant : p.txsMap.lookup h ≠ some t' := by
        intro entry
        have occupied := ((linked.same_txs h t').mp entry).1
        rw [slot.1, slot.2, free] at occupied
        contradiction
      rw [if_pos slot]
      by_cases key : h = txID t.tx
      · rw [if_pos key]
        constructor
        · intro same
          cases same
          exact ⟨rfl, key⟩
        · exact fun both => both.1
      · rw [if_neg key]
        refine ⟨fun entry => absurd entry vacant, ?_⟩
        rintro ⟨same, rfl⟩
        cases same
        exact absurd rfl key
    · rw [if_neg slot]
      by_cases key : h = txID t.tx
      · subst key
        rw [if_pos rfl]
        constructor
        · intro same
          cases same
          exact absurd ⟨rfl, rfl⟩ slot
        · intro both
          have entry := (linked.same_txs _ t').mpr both
          rw [fresh] at entry
          contradiction
      · rw [if_neg key]
        exact linked.same_txs h t'
  own_slot address nonce t' found := by
    rw [addTx_getTx p allowed] at found
    split at found
    · rename_i slot
      cases found
      exact ⟨slot.1.symm, slot.2.symm⟩
    · exact linked.own_slot address nonce t' found
  inhabited address txs found := by
    rw [addTx, if_neg (by simp [allowed]), lookup_insert_if] at found
    split at found
    · cases found
      exact ⟨t.nonce, t, lookup_insert _⟩
    · exact linked.inhabited address txs found

theorem addTx_sound (sound : Sound txID p) (allowed : blacklisted blacklist t = false)
    (valid : p.validate txID t.fromAddr t.tx = .ok ())
    (free : p.getTx t.fromAddr t.nonce = none) : Sound txID (p.addTx txID blacklist t) := by
  obtain ⟨fresh, room, _⟩ := (validate_ok_iff p t.fromAddr t.tx).mp valid
  have linked := addTx_linked sound.linked allowed fresh free
  have blocked : ¬ blacklisted blacklist t = true := by simp [allowed]
  refine ⟨linked, ?_, ?_, ?_⟩
  · rw [addTx, if_neg blocked]
    change (p.txsMap.insert (txID t.tx) t).size ≤ p.maxSize
    rw [size_insert_of_absent _ _ _ fresh]
    exact room
  · intro address
    rw [addTx, if_neg blocked]
    by_cases same : address = t.fromAddr
    · subst same
      have absent : ((p.addressTxsMap.lookup t.fromAddr).getD ∅).lookup t.nonce = none := by
        cases outer : p.addressTxsMap.lookup t.fromAddr with
        | none => rfl
        | some txs => rw [← free, getTx_of_lookup p outer]; rfl
      have grown := size_insert_of_absent _ t.nonce t absent
      have before : ((p.addressTxsMap.lookup t.fromAddr).getD ∅).size = p.txCount t.fromAddr := by
        unfold txCount
        cases p.addressTxsMap.lookup t.fromAddr <;> rfl
      simp only [txCount, lookup_insert]
      omega
    · have limit := sound.count_le address
      simpa [txCount, same] using limit
  · intro address counted
    have before : address ∈ p.periodCounter := by
      rw [addTx, if_neg blocked] at counted
      exact counted
    obtain ⟨nonce, t', slot⟩ := sound.counted address before
    by_cases own : address = t.fromAddr ∧ nonce = t.nonce
    · exact ⟨nonce, t, by rw [addTx_getTx p allowed, if_pos own]⟩
    · exact ⟨nonce, t', by rw [addTx_getTx p allowed, if_neg own]; exact slot⟩

/-- Adding over an occupied slot leaves the old transaction reachable by hash only. -/
theorem addTx_slot_free (linked : Linked txID p) (allowed : blacklisted blacklist t = false)
    (fresh : p.txsMap.lookup (txID t.tx) = none)
    (after : Consistent txID (p.addTx txID blacklist t)) : p.getTx t.fromAddr t.nonce = none := by
  cases slot : p.getTx t.fromAddr t.nonce with
  | none => rfl
  | some old =>
    obtain ⟨owner, number⟩ := linked.own_slot _ _ old slot
    have entry : p.txsMap.lookup (txID old.tx) = some old := by
      refine (linked.same_txs _ old).mpr ⟨?_, rfl⟩
      rw [owner, number, slot]
    have other : txID old.tx ≠ txID t.tx := by
      intro same
      rw [same, fresh] at entry
      contradiction
    have stays : (p.addTx txID blacklist t).txsMap.lookup (txID old.tx) = some old := by
      rw [addTx_lookup p allowed, if_neg other, entry]
    have filed := ((after.same_txs _ old).mp stays).1
    rw [addTx_getTx p allowed, if_pos ⟨owner, number⟩] at filed
    exact absurd (congrArg (fun o => txID o.tx) (Option.some.inj filed).symm) other

end

theorem step_sound {op : Op} (sound : Sound txID p)
    (kept : SlotsKept txID p op) : Sound txID (step txID p op) := by
  cases op with
  | add blacklist t =>
    simp only [step]
    cases valid : p.validate txID t.fromAddr t.tx with
    | error _ => exact sound
    | ok _ =>
      cases blocked : blacklisted blacklist t with
      | true =>
        rwa [addTx_blacklisted p blocked]
      | false => exact addTx_sound sound blocked valid (kept valid blocked)
  | remove address nonce => exact removeTx_sound sound address nonce
  | removeByHash txHash => exact removeTxByHash_sound sound txHash
  | handlePending addressNonce =>
    exact sound.dropped (handlePendingAddrs_spec addressNonce.entries sound.linked).1
      ((handlePendingTx_counted_iff sound addressNonce).mpr kept)
  | handlePeriod => exact handlePeriodCounter_sound sound

theorem step_slotsKept {op : Op} (sound : Sound txID p)
    (after : Consistent txID (step txID p op)) : SlotsKept txID p op := by
  cases op with
  | add =>
    intro valid allowed
    simp only [step, valid] at after
    exact addTx_slot_free sound.linked allowed ((validate_ok_iff _ _ _).mp valid).1 after
  | handlePending addressNonce =>
    exact (handlePendingTx_counted_iff sound addressNonce).mp after.counted
  | remove | removeByHash | handlePeriod => trivial

/-- Every state of a run is consistent exactly when no step adds over an occupied slot and no
handlePendingTx empties an address that has a counter. -/
theorem visited_consistent_iff (txID : List UInt8 → String)
    (maxSize reserveBlocks maxTxPerAddress : Nat) (ops : List Op) :
    (∀ p ∈ Run.visited (step txID) (newPendingPool maxSize reserveBlocks maxTxPerAddress) ops,
        Consistent txID p) ↔
      Run.Along (step txID) (SlotsKept txID)
        (newPendingPool maxSize reserveBlocks maxTxPerAddress) ops :=
  Run.visited_iff_along (Sound txID) (fun _ sound => sound.consistent)
    (fun _ _ => step_sound) (fun _ _ => step_slotsKept)
    (newPendingPool_sound maxSize reserveBlocks maxTxPerAddress)

/-- A one-byte transaction of sender "a" with nonce 5, and the text form of its byte. -/
def waitingTx (byte : UInt8) : MempoolTx where
  tx := [byte]
  height := 1
  fromAddr := "a"
  nonce := 5
  gasPrice := 10
  txHash := []

def byteID (tx : List UInt8) : String := String.ofList (tx.map fun b => Char.ofNat b.toNat)

/-- A second transaction with the same sender and nonce leaves the first filed by hash only; an
address emptied by handlePendingTx keeps its counter. -/
theorem visited_inconsistent : (∃ p ∈ Run.visited (step byteID) (newPendingPool 10 3 5)
        [.add [] (waitingTx 65), .add [] (waitingTx 66)], ¬ Consistent byteID p) ∧
      ∃ p ∈ Run.visited (step byteID) (newPendingPool 10 3 5)
        [.add [] (waitingTx 65), .handlePeriod, .handlePending (singleton "a" 5)],
        ¬ Consistent byteID p := by
  refine ⟨⟨_, Run.exec_mem_visited _ _ _, fun after => ?_⟩,
    ⟨_, Run.exec_mem_visited _ _ _, fun after => ?_⟩⟩
  · exact absurd after.size_eq (by decide)
  obtain ⟨nonce, t, slot⟩ := after.counted "a" (by decide)
  have missing : (Run.exec (step byteID) (newPendingPool 10 3 5)
      [.add [] (waitingTx 65), .handlePeriod, .handlePending (singleton "a" 5)]
        ).addressTxsMap.lookup "a" = none := by decide
  contradiction

end Exchain.Mempool.PendingPool
