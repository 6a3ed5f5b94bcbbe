import Exchain.Lib.Run
import Exchain.Mempool.QueueInsert

namespace Exchain.Mempool.GasTxQueue

/-- The operations on the queue. A transaction comes from the decoder; Remove is given an element of
the list, by its position. -/
inductive Op (keys : KeyRegime)
  | insert (t : MempoolTx) (decoded : keys.Decoded t)
  | remove (position : Nat)
  | removeByKey (key : List UInt8)
  | cleanItems (address : Address) (nonce : Nat)

variable {keys : KeyRegime}

def step (q : GasTxQueue) : Op keys → GasTxQueue
  | .insert t _ =>
    match q.insert keys t with
    | .ok q' => q'
    | .error _ => q
  | .remove position =>
    match q.sortedTxs[position]? with
    | some e => q.remove keys e
    | none => q
  | .removeByKey key => (q.removeByKey key).2
  | .cleanItems address nonce => q.cleanItems keys address nonce

/-- A transaction that replaces none is not overtaken when it is inserted. -/
def InOrder (q : GasTxQueue) : Op keys → Prop
  | .insert t _ => q.item t.fromAddr t.nonce = none → NotOvertaken t q.sortedTxs
  | _ => True

theorem Without.nonceOrdered {drop : MempoolTx → Bool} {q q' : GasTxQueue}
    (without : Without drop q q') (ordered : NonceOrdered q.sortedTxs) :
    NonceOrdered q'.sortedTxs := by
  rw [without.list]
  exact ordered.filter _

variable {q : GasTxQueue}

variable (synced : Synced keys q)
include synced

theorem step_spec (op : Op keys) :
    (∃ t decoded, op = .insert t decoded) ∨ ∃ drop, Without drop q (step q op) := by
  have unchanged := Without.refl synced
  cases op with
  | insert t decoded => exact .inl ⟨t, decoded, rfl⟩
  | remove position =>
    refine .inr ?_
    cases found : q.sortedTxs[position]? with
    | none => exact ⟨_, by simpa only [step, found] using unchanged⟩
    | some e =>
      have without := remove_without synced (List.mem_of_getElem? found)
      exact ⟨_, by simpa only [step, found] using without⟩
  | removeByKey key =>
    refine .inr ?_
    cases found : q.sortedTxsMap.lookup key with
    | none => exact ⟨_, by simpa only [step, removeByKey_of_missing found] using unchanged⟩
    | some e =>
      have without := remove_without synced (synced.keyed key e found).1
      exact ⟨_, by simpa only [step, removeByKey_eq synced found] using without⟩
  | cleanItems address nonce => exact .inr ⟨_, cleanItems_without synced address nonce⟩

theorem step_synced (op : Op keys) : Synced keys (step q op) := by
  rcases step_spec synced op with ⟨t, decoded, rfl⟩ | ⟨drop, without⟩
  · rcases insert_spec synced t with ⟨q', accepted, inserted⟩ | ⟨refused, _⟩
    · have own := KeyRegime.txOrTxHashToKey_eq decoded
      simpa only [step, accepted] using inserted.synced synced own
    · simpa only [step, refused] using synced
  · exact without.synced synced

theorem step_nonceOrdered_iff (ordered : NonceOrdered q.sortedTxs) (op : Op keys) :
    NonceOrdered (step q op).sortedTxs ↔ InOrder q op := by
  cases op with
  | insert t =>
    rcases insert_spec synced t with ⟨q', accepted, inserted⟩ | ⟨refused, old, present, _⟩
    · simpa only [step, accepted, InOrder] using inserted.ordered ordered
    · simp only [step, refused, InOrder, present]
      exact ⟨fun _ missing => by contradiction, fun _ => ordered⟩
  | remove position =>
    rcases step_spec synced (.remove position) with ⟨_, _, impossible⟩ | ⟨drop, without⟩
    · contradiction
    · exact iff_of_true (without.nonceOrdered ordered) trivial
  | removeByKey key =>
    rcases step_spec synced (.removeByKey key) with ⟨_, _, impossible⟩ | ⟨drop, without⟩
    · contradiction
    · exact iff_of_true (without.nonceOrdered ordered) trivial
  | cleanItems address nonce =>
    exact iff_of_true ((cleanItems_without synced address nonce).nonceOrdered ordered) trivial

omit synced

def pricedTx (address : Address) (nonce : Nat) (gasPrice : Int) : MempoolTx where
  tx := [nonce.toUInt8]
  height := 1
  fromAddr := address
  nonce := nonce
  gasPrice := gasPrice
  txHash := []

theorem pricedTx_decoded (address : Address) (nonce : Nat) (gasPrice : Int) :
    KeyRegime.raw.Decoded (pricedTx address nonce gasPrice) where
  nonempty := List.cons_ne_nil _ _
  hash higher := by contradiction

def insertPriced (address : Address) (nonce : Nat) (gasPrice : Int) : Op KeyRegime.raw :=
  .insert (pricedTx address nonce gasPrice) (pricedTx_decoded address nonce gasPrice)

def overtakingOps : List (Op KeyRegime.raw) :=
  [insertPriced "a" 5 1, insertPriced "b" 4 1, insertPriced "b" 5 100, .remove 1,
    insertPriced "a" 3 50]

end Exchain.Mempool.GasTxQueue
