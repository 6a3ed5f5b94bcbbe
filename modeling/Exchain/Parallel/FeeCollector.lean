import Exchain.BaseApp.FeeSplit
import Mathlib.Tactic.Abel

/-! The balance of the fee collector. Serial delivery moves it with every fee, refund and payment. A
parallel run leaves the account out of its conflict check, so the stored balance may have been
computed from an old one; the run adds up the fees beside it and overwrites the account with the
sum, if that is not empty. -/

namespace Exchain.Parallel.FeeCollector

open List

variable {Denom : Type}

/-- How a transaction ends, as far as the collector goes. -/
inductive Ending (Denom : Type) where
  /-- Without a store, or with an error of the ante handler. -/
  | rejected
  /-- With a panic of the ante handler, after the fee was taken or before. -/
  | antePanic (deducted : Bool)
  /-- With the refund, what the messages pay to the collector, and the split. -/
  | ran (refund pays split : Coins Denom)

structure TxRun (Denom : Type) where
  fee : Coins Denom
  ending : Ending Denom
  /-- The account is written, with what was found in it and what is moved. -/
  writes : Bool
  supportPara : Bool

namespace TxRun

variable (tx : TxRun Denom)

/-- The part of currTxFee. -/
def fees : Coins Denom := match tx.ending with
  | .rejected => 0
  | .antePanic _ => tx.fee
  | .ran refund _ _ => tx.fee - refund

/-- Counted as a fee, and in serial delivery not taken. -/
def lost : Coins Denom := match tx.ending with
  | .antePanic _ => tx.fee
  | _ => 0

def pays : Coins Denom := match tx.ending with
  | .ran _ pays _ => pays
  | _ => 0

def split : Coins Denom := match tx.ending with
  | .ran _ _ split => split
  | _ => 0

/-- What a committed result moves in the account it found. -/
def moved : Coins Denom := match tx.ending with
  | .rejected => 0
  | .antePanic deducted => if deducted then tx.fee else 0
  | .ran refund pays _ => tx.fee - refund + pays

def stores : Bool := match tx.ending with
  | .rejected => false
  | _ => tx.writes

/-- Fees are amounts, refunds are within them, and an account that changes is written. -/
structure Valid (tx : TxRun Denom) : Prop where
  fee : 0 ≤ tx.fee
  refund : ∀ refund pays split, tx.ending = .ran refund pays split → refund ≤ tx.fee
  written : tx.moved ≠ 0 → tx.stores = true

end TxRun

/-- DeliverTx: a failed ante handler moves nothing. -/
def deliver (balance : Coins Denom) (tx : TxRun Denom) : Coins Denom := match tx.ending with
  | .rejected => balance
  | .antePanic _ => balance
  | .ran refund pays _ => balance + tx.fee - refund + pays

def splits (block : List (TxRun Denom)) : Coins Denom := (block.map TxRun.split).sum

/-- The balance after the block was delivered serially and the splits are paid. -/
def serialBalance (block : List (TxRun Denom)) : Coins Denom := block.foldl deliver 0 - splits block

/-- Whether an accepted result is one of a rerun, or of a run that saw the account before. -/
inductive Plan (Denom : Type) where
  | rerun
  | early (seen : Coins Denom)

structure Manager (Denom : Type) where
  /-- The collector's balance in cms. -/
  stored : Coins Denom
  currTxFee : Coins Denom

section

variable [Fintype Denom]

/-- SetCoins, if there is something to set. -/
def fix (balance stored : Coins Denom) : Coins Denom := if balance = 0 then stored else balance

/-- The speculative run that is accepted, if there is one. -/
def TxRun.early (tx : TxRun Denom) (plan : Plan Denom) : Option (Coins Denom) :=
  match tx.supportPara, plan with
  | true, .early seen => some seen
  | _, _ => none

/-- One round of asyncCb. What does not run in parallel is run after fixFeeCollector. -/
def asyncCb (pm : Manager Denom) (tx : TxRun Denom) (plan : Plan Denom) : Manager Denom :=
  let stored := if tx.supportPara then pm.stored else fix pm.currTxFee pm.stored
  let seen := (tx.early plan).getD stored
  ⟨if tx.stores then seen + tx.moved else stored, pm.currTxFee + tx.fees⟩

def runTxs (pm : Manager Denom) (block : List (TxRun Denom × Plan Denom)) : Manager Denom :=
  block.foldl (fun pm item => asyncCb pm item.1 item.2) pm

/-- The balance after ParallelTxs and updateFeeCollectorAccount. -/
def parallelBalance (block : List (TxRun Denom × Plan Denom)) : Coins Denom :=
  fix (runTxs ⟨0, 0⟩ block).currTxFee (runTxs ⟨0, 0⟩ block).stored - splits (block.map Prod.fst)

/-- The last speculative run that wrote the account saw in it what had been paid before. -/
def Fresh : List (TxRun Denom × Plan Denom) → Coins Denom → Prop → Prop
  | [], _, fresh => fresh
  | (tx, plan) :: rest, paid, fresh =>
    Fresh rest (paid + tx.pays)
      (match tx.stores, tx.early plan with
        | true, some seen => seen = paid
        | _, _ => fresh)

/-- A block with fees: the messages pay as much as is counted for failed ante handlers. One
without: nothing overwrites what the messages pay. -/
def Balanced (block : List (TxRun Denom × Plan Denom)) : Prop :=
  if (block.map fun item => item.1.fees).sum = 0 then Fresh block 0 True
  else (block.map fun item => item.1.pays).sum = (block.map fun item => item.1.lost).sum

end

theorem deliver_eq (balance : Coins Denom) (tx : TxRun Denom) :
    deliver balance tx = balance + (tx.fees - tx.lost + tx.pays) := by
  unfold deliver TxRun.fees TxRun.lost TxRun.pays
  cases tx.ending with
  | rejected | antePanic => simp
  | ran =>
    dsimp only
    abel

theorem foldl_deliver (block : List (TxRun Denom)) (balance : Coins Denom) :
    block.foldl deliver balance =
      balance + ((block.map TxRun.fees).sum - (block.map TxRun.lost).sum + (block.map TxRun.pays).sum) := by
  induction block generalizing balance with
  | nil => simp
  | cons tx rest ih =>
    rw [foldl_cons, ih, deliver_eq]
    simp only [map_cons, sum_cons]
    abel

variable {tx : TxRun Denom}

theorem fees_nonneg (valid : tx.Valid) : 0 ≤ tx.fees := by
  unfold TxRun.fees
  cases ended : tx.ending with
  | rejected => exact le_refl _
  | antePanic => exact valid.fee
  | ran refund pays split => exact sub_nonneg.mpr (valid.refund refund pays split ended)

theorem lost_of_fees (none : tx.fees = 0) : tx.lost = 0 := by
  unfold TxRun.fees at none
  unfold TxRun.lost
  cases ended : tx.ending with
  | antePanic =>
    rw [ended] at none
    exact none
  | _ => rfl

theorem moved_of_fees (none : tx.fees = 0) : tx.moved = tx.pays := by
  unfold TxRun.fees at none
  unfold TxRun.moved TxRun.pays
  cases ended : tx.ending with
  | rejected => rfl
  | antePanic =>
    rw [ended] at none
    dsimp only at none ⊢
    rw [none, ite_self]
  | ran =>
    rw [ended] at none
    dsimp only at none ⊢
    rw [none, zero_add]

section

variable [Fintype Denom]

theorem currTxFee_runTxs (block : List (TxRun Denom × Plan Denom)) (pm : Manager Denom) :
    (runTxs pm block).currTxFee = pm.currTxFee + (block.map fun item => item.1.fees).sum := by
  induction block generalizing pm with
  | nil => exact (add_zero _).symm
  | cons _ _ ih =>
    rw [map_cons, sum_cons, ← add_assoc]
    exact ih _

variable {block : List (TxRun Denom × Plan Denom)}

theorem stored_iff_fresh {pm : Manager Denom} {paid : Coins Denom}
    {fresh : Prop} (valid : ∀ item ∈ block, item.1.Valid) (none : ∀ item ∈ block, item.1.fees = 0)
    (noFee : pm.currTxFee = 0) (start : pm.stored = paid ↔ fresh) :
    (runTxs pm block).stored = paid + (block.map fun item => item.1.pays).sum ↔ Fresh block paid fresh := by
  induction block generalizing pm paid fresh with
  | nil =>
    rw [map_nil, sum_nil, add_zero]
    exact start
  | cons item rest ih =>
    obtain ⟨tx, plan⟩ := item
    have here := none (tx, plan) mem_cons_self
    have movedIs := moved_of_fees here
    have unfixed : (if tx.supportPara then pm.stored else fix pm.currTxFee pm.stored) = pm.stored := by
      unfold fix
      rw [noFee, if_pos rfl, ite_self]
    have next : (asyncCb pm tx plan).stored = paid + tx.pays ↔ (match tx.stores, tx.early plan with
          | true, some seen => seen = paid
          | _, _ => fresh) := by
      unfold asyncCb
      rw [unfixed, movedIs]
      cases stores : tx.stores with
      | false =>
        have nothing : tx.pays = 0 := by
          by_contra some
          have written := (valid (tx, plan) mem_cons_self).written (by rw [movedIs]; exact some)
          exact Bool.false_ne_true (stores.symm.trans written)
        rw [nothing]
        cases tx.early plan <;> simpa using start
      | true =>
        cases tx.early plan with
        | none => exact (add_left_inj tx.pays).trans start
        | some seen => exact add_left_inj tx.pays
    rw [map_cons, sum_cons, ← add_assoc]
    refine ih (fun i mem => valid i (mem_cons_of_mem _ mem)) (fun i mem => none i (mem_cons_of_mem _ mem)) ?_ next
    show pm.currTxFee + tx.fees = 0
    rw [noFee, zero_add]
    exact here

omit [Fintype Denom] in
theorem fees_of_sum (valid : ∀ item ∈ block, item.1.Valid)
    (none : (block.map fun item => item.1.fees).sum = 0) : ∀ item ∈ block, item.1.fees = 0 := by
  induction block with
  | nil => exact nofun
  | cons first rest ih =>
    have later : ∀ item ∈ rest, item.1.Valid := fun item mem => valid item (mem_cons_of_mem _ mem)
    have restNonneg : 0 ≤ (rest.map fun item => item.1.fees).sum := by
      apply sum_nonneg
      intro fee mem
      obtain ⟨item, held, rfl⟩ := mem_map.mp mem
      exact fees_nonneg (later item held)
    rw [map_cons, sum_cons,
      add_eq_zero_iff_of_nonneg (fees_nonneg (valid first mem_cons_self)) restNonneg] at none
    exact forall_mem_cons.mpr ⟨none.1, ih later none.2⟩

/-- A transaction that creates a farm pool pays 100 to the collector, besides its fee. -/
def createPool : TxRun Unit := ⟨fun _ => 10, .ran (fun _ => 4) (fun _ => 100) 0, true, false⟩

def transfer : TxRun Unit := ⟨fun _ => 10, .ran (fun _ => 4) 0 (fun _ => 3), true, true⟩

end

open BaseApp

variable {User : Type} [DecidableEq User] [DecidableEq Denom] [Fintype Denom] (bondDenom : Denom)

/-- A delivery whose messages pay a given amount to the collector. -/
def ofDelivery (delivery : Delivery User Denom) (bank : Bank (Account User) Denom) (pays : Coins Denom)
    (deducted writes supportPara : Bool) : TxRun Denom :=
  let body := runBody bondDenom delivery.tx delivery.run bank
  let settled := deferRefund bondDenom delivery.tx body
  { fee := delivery.tx.fee bondDenom
    ending := if body.anteOk then
        .ran settled.refund (if body.exit = .done then pays else 0) ((settled.split.toList.map FeeSplitInfo.fee).sum)
      else if body.exit = .error then .rejected
      else .antePanic deducted
    writes := writes
    supportPara := supportPara }

variable {bondDenom}

theorem deliver_ofDelivery {delivery : Delivery User Denom} {bank : Bank (Account User) Denom} {pays : Coins Denom}
    {blockMeter : GasMeter} (deducted writes supportPara : Bool) (held : 0 ≤ bank .feeCollector)
    (paying : ∀ bank, delivery.run.msgs.effect bank .feeCollector = bank .feeCollector + pays)
    (gasLeft : blockMeter.isOutOfGas = false) :
    (runTx bondDenom delivery.tx delivery.run bank blockMeter).bank .feeCollector =
      deliver (bank .feeCollector) (ofDelivery bondDenom delivery bank pays deducted writes supportPara) := by
  unfold runTx deliver ofDelivery
  rw [gasLeft, if_neg Bool.false_ne_true]
  dsimp only [deferReport]
  cases passed : (runBody bondDenom delivery.tx delivery.run bank).anteOk with
  | false =>
    rw [if_neg Bool.false_ne_true, (deferRefund_of_failed rfl passed).1]
    split <;> rename_i ended
    · rfl
    · rfl
    · split at ended <;> cases ended
  | true =>
    obtain ⟨-, -, sent, -⟩ := deferRefund_of_ante rfl held passed
    obtain ⟨-, bankIs, -⟩ := runBody_of_ante rfl passed
    rw [sent]
    simp only [moved, if_true, reduceCtorEq, if_false]
    rw [bankIs]
    split
    · rw [paying]
      simp only [moved, if_true, reduceCtorEq, if_false]
      abel
    · simp [moved]

theorem fees_ofDelivery (delivery : Delivery User Denom) (bank : Bank (Account User) Denom) (pays : Coins Denom)
    (deducted writes supportPara : Bool) :
    currTxFee [AsyncDelivery.result bondDenom ⟨delivery, bank, false⟩] =
      (ofDelivery bondDenom delivery bank pays deducted writes supportPara).fees := by
  unfold TxRun.fees ofDelivery AsyncDelivery.result currTxFee
  dsimp only
  cases passed : (runBody bondDenom delivery.tx delivery.run bank).anteOk with
  | true => simp
  | false =>
    by_cases failed : (runBody bondDenom delivery.tx delivery.run bank).exit = .error
    · rw [if_pos failed, decide_eq_true failed]
      rfl
    · rw [if_neg failed, decide_eq_false failed]
      simp [(deferRefund_of_failed rfl passed).2]

end Exchain.Parallel.FeeCollector
