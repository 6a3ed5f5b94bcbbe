import Exchain.Mempool.PendingPoolRun

namespace Exchain.Mempool.PendingPool

open AList
open Option

/-- A delivered transaction, with the sender and nonce of its element or of its bytes. -/
structure Delivered where
  txHash : String
  address : Address
  nonce : Nat
  code : Nat

/-- The nonce is consumed by a success, and by a failure after the ante handler. -/
def Delivered.consumes (d : Delivered) : Bool := d.code = 0 || 100000 < d.code

def fills (address : Address) (nonce : Nat) (t : MempoolTx) : Bool :=
  address = t.fromAddr && nonce = t.nonce

variable (txID : List UInt8 → String) (sequence : Address → Nat) (p : PendingPool)
  (block : List Delivered) (address : Address) (nonce : Nat)

/-- One above the highest nonce consumed on chain, in the block or before. -/
def nextNonce : Nat := block.foldl (fun next d =>
  if d.address = address && d.consumes then max next (d.nonce + 1) else next) (sequence address)

/-- What Update notes, for every response code. -/
def addressNonce : AssocMap Address Nat := block.foldl (fun acc d => acc.insert d.address d.nonce) ∅

def removeDelivered : PendingPool := block.foldl (fun acc d => acc.removeTxByHash d.txHash) p

def update : PendingPool := (p.removeDelivered block).handlePendingTx txID (addressNonce block)

def ready : List (Address × Nat) := (p.removeDelivered block).handlePendingTxReady (addressNonce block)

/-- A delivered hash is that of a pooled transaction with this sender and nonce. -/
def deliversSlot : Bool := block.any fun d => (p.txsMap.lookup d.txHash).any (fills address nonce)

theorem removeTxByHash_getTx (txHash : String) : (p.removeTxByHash txHash).getTx address nonce =
    if (p.txsMap.lookup txHash).any (fills address nonce) then none else p.getTx address nonce := by
  unfold removeTxByHash
  cases p.txsMap.lookup txHash with
  | none => rfl
  | some t =>
    dsimp only [any_some, fills]
    split
    · rename_i outer
      by_cases same : address = t.fromAddr
      · rw [same]
        simp [getTx, outer]
      · simp [getTx, same]
    · rename_i txs outer
      apply Dropped.getTx_of_left outer (txs.erase t.nonce) fun n => n = t.nonce
      · simp [lookup_erase_if]
      · exact (settle_lookup _ _ · _)

theorem removeTxByHash_lookup (txHash other : String) :
    (p.removeTxByHash txHash).txsMap.lookup other =
      if other = txHash then none else p.txsMap.lookup other := by
  unfold removeTxByHash
  split
  · rename_i absent
    split
    · rename_i same
      rw [same, absent]
    · rfl
  · dsimp only
    split
    · exact lookup_erase_if ..
    · rw [settle_txsMap]
      exact lookup_erase_if ..

theorem removeDelivered_getTx : (p.removeDelivered block).getTx address nonce =
    if p.deliversSlot block address nonce then none else p.getTx address nonce := by
  induction block generalizing p with
  | nil => rfl
  | cons d rest ih =>
    rw [removeDelivered]
    refine (ih _).trans ?_
    rw [removeTxByHash_getTx, deliversSlot, deliversSlot, List.any_cons]
    cases slot : (p.txsMap.lookup d.txHash).any (fills address nonce) with
    | true => simp
    | false =>
      -- the deleted hash is not that of the slot, so the others decide as before
      have same : ∀ e : Delivered,
          ((p.removeTxByHash d.txHash).txsMap.lookup e.txHash).any (fills address nonce) =
            (p.txsMap.lookup e.txHash).any (fills address nonce) := by
        intro e
        rw [removeTxByHash_lookup]
        split
        · rename_i here
          rw [here, slot]
          rfl
        · rfl
      simp [same]

theorem update_eq_some {t : MempoolTx} : (p.update txID block).getTx address nonce = some t ↔
    p.getTx address nonce = some t ∧ p.deliversSlot block address nonce = false ∧
      ∀ last ∈ (addressNonce block).lookup address, last < nonce := by
  rw [update, handlePendingTx_getTx, removeDelivered_getTx]
  cases (addressNonce block).lookup address <;> cases p.deliversSlot block address nonce <;>
    simp [and_comm]

theorem mem_ready : (address, nonce) ∈ p.ready block ↔ (p.getTx address nonce).isSome ∧
    p.deliversSlot block address nonce = false ∧
      ∃ last ∈ (addressNonce block).lookup address, nonce = last + 1 := by
  constructor
  · intro inside
    obtain ⟨⟨_, last⟩, entry, found⟩ := List.mem_filterMap.mp inside
    obtain ⟨_, got, same⟩ := map_eq_some_iff.mp found
    cases same
    rw [removeDelivered_getTx] at got
    split at got
    · cases got
    rename_i free
    exact ⟨by rw [got]; rfl, Bool.eq_false_iff.mpr free, last, (lookup_eq_some_iff ..).mpr entry, rfl⟩
  · rintro ⟨pooled, free, last, noted, rfl⟩
    obtain ⟨_, pooled⟩ := isSome_iff_exists.mp pooled
    refine List.mem_filterMap.mpr ⟨⟨address, last⟩, (lookup_eq_some_iff ..).mp noted, ?_⟩
    simp [removeDelivered_getTx, free, pooled]

/-- Only stale transactions and those of the block are dropped, and the next ones are selected. -/
structure Exact : Prop where
  stale : ∀ address nonce t, p.getTx address nonce = some t → (∀ d ∈ block, d.txHash ≠ txID t.tx) →
    (p.update txID block).getTx address nonce = none → nonce < nextNonce sequence block address
  selected : ∀ address nonce, (address, nonce) ∈ p.ready block ↔ address ∈ addressNonce block ∧
    nonce = nextNonce sequence block address ∧ ((p.update txID block).getTx address nonce).isSome

/-- For a pooled transaction that the account has not passed, the block delivers no other one of its
sender and nonce, and the last nonce delivered is lower; of those that stay, the one after it is the
next. -/
theorem exact_iff : Exact txID sequence p block ↔ ∀ address nonce t, p.getTx address nonce = some t →
    ((∀ d ∈ block, d.txHash ≠ txID t.tx) → nextNonce sequence block address ≤ nonce →
      p.deliversSlot block address nonce = false ∧
        ∀ last ∈ (addressNonce block).lookup address, last < nonce) ∧
    (p.deliversSlot block address nonce = false → ∀ last ∈ (addressNonce block).lookup address,
      last < nonce → (nonce = last + 1 ↔ nonce = nextNonce sequence block address)) := by
  constructor
  · intro exact address nonce t pooled
    refine ⟨fun outside ahead => ?_, fun free last noted above => ?_⟩
    · have stays : (p.update txID block).getTx address nonce ≠ none := fun gone =>
        absurd (exact.stale address nonce t pooled outside gone) (by omega)
      obtain ⟨_, shown⟩ := ne_none_iff_exists'.mp stays
      exact ((update_eq_some ..).mp shown).2
    have selected := exact.selected address nonce
    have stays := (update_eq_some txID p block address nonce).mpr
      ⟨pooled, free, fun other listed => mem_unique noted listed ▸ above⟩
    have present : address ∈ addressNonce block := lookup_isSome.mp (by rw [noted]; rfl)
    rw [mem_ready, pooled, stays, mem_def.mp noted] at selected
    simpa [free, present] using selected
  · intro meets
    refine ⟨fun address nonce t pooled outside gone => ?_, fun address nonce => ?_⟩
    · by_contra passed
      have stays := (update_eq_some txID ..).mpr
        ⟨pooled, (meets address nonce t pooled).1 outside (by omega)⟩
      cases gone.symm.trans stays
    rw [mem_ready]
    constructor
    · rintro ⟨pooled, free, last, noted, next⟩
      obtain ⟨t, pooled⟩ := isSome_iff_exists.mp pooled
      have above : ∀ other ∈ (addressNonce block).lookup address, other < nonce := by
        intro other listed
        cases mem_unique noted listed
        omega
      refine ⟨lookup_isSome.mp (by rw [noted]; rfl),
        ((meets address nonce t pooled).2 free last noted (above last noted)).mp next, ?_⟩
      rw [(update_eq_some ..).mpr ⟨pooled, free, above⟩]
      rfl
    · rintro ⟨present, next, shown⟩
      obtain ⟨t, shown⟩ := isSome_iff_exists.mp shown
      obtain ⟨pooled, free, above⟩ := (update_eq_some ..).mp shown
      obtain ⟨last, noted⟩ := isSome_iff_exists.mp (lookup_isSome.mpr present)
      exact ⟨by rw [pooled]; rfl, free, last, noted,
        ((meets address nonce t pooled).2 free last noted (above last noted)).mpr next⟩

/-- The nonce of a rejected transaction is noted like a consumed one. -/
theorem rejected_drops_waiting : ¬ Exact byteID (fun _ => 3)
    ((newPendingPool 10 3 5).addTx byteID [] (waitingTx 65)) [⟨"x", "a", 7, 5⟩] := by
  intro exact
  have passed := exact.stale "a" 5 (waitingTx 65) rfl (by decide) (by decide)
  exact absurd passed (by decide)

end Exchain.Mempool.PendingPool
