import Exchain.BaseApp.FeeAccounting
import Mathlib.Data.Finset.Sort
import Mathlib.Algebra.BigOperators.Group.Finset.Piecewise

namespace Exchain.BaseApp

open List Function GasMeter

section

variable {User Denom : Type} [DecidableEq User] (splits : List (FeeSplitInfo User Denom))

/-- What the splits of one address add up to. -/
def total (addr : User) : Coins Denom :=
  (splits.map fun split => if split.addr = addr then split.fee else 0).sum

/-- The map of groupByAddrAndSortFeeSplits. -/
def groupByAddr : User → Coins Denom :=
  splits.foldl (fun fees split => update fees split.addr (fees split.addr + split.fee)) (fun _ => 0)

def sortAddrs [LinearOrder User] (splits : List (FeeSplitInfo User Denom)) : List User :=
  (splits.map FeeSplitInfo.addr).toFinset.sort

theorem foldl_group (fees : User → Coins Denom) (addr : User) :
    splits.foldl (fun fees split => update fees split.addr (fees split.addr + split.fee)) fees addr =
      fees addr + total splits addr := by
  induction splits generalizing fees with
  | nil => exact (add_zero _).symm
  | cons split rest ih =>
    rw [foldl_cons, ih]
    unfold total
    rw [map_cons, sum_cons, ← add_assoc]
    congr 1
    by_cases same : split.addr = addr
    · rw [← same, update_self, if_pos rfl]
    · rw [update_of_ne (Ne.symm same), if_neg same, add_zero]

theorem groupByAddr_eq (addr : User) : groupByAddr splits addr = total splits addr := by
  unfold groupByAddr
  rw [foldl_group, zero_add]

variable {splits : List (FeeSplitInfo User Denom)}

theorem total_nonneg (valid : ∀ split ∈ splits, 0 ≤ split.fee) (addr : User) :
    0 ≤ total splits addr := by
  apply sum_nonneg
  intro fee mem
  obtain ⟨split, held, rfl⟩ := mem_map.mp mem
  split
  · exact valid split held
  · exact le_refl _

theorem total_of_not_mem {addr : User}
    (absent : addr ∉ splits.map FeeSplitInfo.addr) : total splits addr = 0 := by
  apply sum_eq_zero
  intro fee mem
  obtain ⟨split, held, rfl⟩ := mem_map.mp mem
  apply if_neg
  intro same
  exact absent (mem_map.mpr ⟨split, held, same⟩)

theorem total_perm {splits' : List (FeeSplitInfo User Denom)} (perm : splits'.Perm splits) :
    total splits' = total splits := by
  funext addr
  exact (perm.map _).sum_eq

theorem sum_total {addrs : Finset User} (within : ∀ split ∈ splits, split.addr ∈ addrs) :
    ∑ addr ∈ addrs, total splits addr = (splits.map FeeSplitInfo.fee).sum := by
  induction splits with
  | nil => exact Finset.sum_const_zero
  | cons split rest ih =>
    have rest' := ih fun s mem => within s (mem_cons_of_mem _ mem)
    have here : ∑ addr ∈ addrs, (if split.addr = addr then split.fee else 0) = split.fee := by
      rw [Finset.sum_ite_eq, if_pos (within split mem_cons_self)]
    rw [map_cons, sum_cons, ← rest', ← here, ← Finset.sum_add_distrib]
    apply Finset.sum_congr rfl
    intro addr _
    unfold total
    rw [map_cons, sum_cons]

theorem sum_sortAddrs [LinearOrder User] (splits : List (FeeSplitInfo User Denom)) :
    ((sortAddrs splits).map (total splits)).sum = (splits.map FeeSplitInfo.fee).sum := by
  have listed := sum_toFinset (total splits)
    (Finset.sort_nodup (splits.map FeeSplitInfo.addr).toFinset (· ≤ ·))
  rw [Finset.sort_toFinset] at listed
  unfold sortAddrs
  rw [← listed]
  apply sum_total
  intro split mem
  exact mem_toFinset.mpr (mem_map.mpr ⟨split, mem, rfl⟩)

end

section

variable {User Denom : Type} [DecidableEq User] [Fintype Denom]

/-- The payments of updateFeeCollectorHandler, one address after the other. -/
def payAll (fees : User → Coins Denom) (addrs : List User) (bank : Bank (Account User) Denom) :
    Except SendError (Bank (Account User) Denom) :=
  addrs.foldlM (fun bank addr => bank.sendCoins .feeCollector (.user addr) (fees addr)) bank

/-- The collector's account before the payments: overwritten with the fees, if there are any. -/
def withBalance (balance : Coins Denom) (bank : Bank (Account User) Denom) : Bank (Account User) Denom :=
  if balance = 0 then bank else update bank .feeCollector balance

def updateFeeCollectorHandler [LinearOrder User] (balance : Coins Denom) (splits : List (FeeSplitInfo User Denom))
    (bank : Bank (Account User) Denom) : Except SendError (Bank (Account User) Denom) :=
  payAll (groupByAddr splits) (sortAddrs splits) (withBalance balance bank)

/-- updateFeeCollectorAccount: what a failed handler did is dropped. -/
def updateFeeCollectorAccount [LinearOrder User] (balance : Coins Denom) (splits : List (FeeSplitInfo User Denom))
    (bank : Bank (Account User) Denom) : Bank (Account User) Denom :=
  match updateFeeCollectorHandler balance splits bank with
  | .ok bank => bank
  | .error _ => bank

variable {bank : Bank (Account User) Denom} {splits : List (FeeSplitInfo User Denom)}

theorem updateFeeCollectorAccount_of_ok [LinearOrder User] {balance : Coins Denom}
    {bank' : Bank (Account User) Denom}
    (done : updateFeeCollectorHandler balance splits bank = .ok bank') :
    updateFeeCollectorAccount balance splits bank = bank' := by
  unfold updateFeeCollectorAccount
  rw [done]

/-- Every withdrawer has its splits, and the collector the rest. -/
def paid (splits : List (FeeSplitInfo User Denom)) (bank : Bank (Account User) Denom) : Bank (Account User) Denom
  | .feeCollector => bank .feeCollector - (splits.map FeeSplitInfo.fee).sum
  | .user user => bank (.user user) + total splits user

theorem payAll_ok {fees : User → Coins Denom} {addrs : List User}
    (distinct : addrs.Nodup) (valid : ∀ addr, 0 ≤ fees addr) (enough : (addrs.map fees).sum ≤ bank .feeCollector) :
    payAll fees addrs bank = .ok (fun account => match account with
      | .feeCollector => bank .feeCollector - (addrs.map fees).sum
      | .user user => bank (.user user) + if user ∈ addrs then fees user else 0) := by
  induction addrs generalizing bank with
  | nil =>
    refine congrArg Except.ok (funext fun account => ?_)
    cases account with
    | feeCollector => exact (sub_zero _).symm
    | user user => exact (add_zero _).symm
  | cons addr rest ih =>
    have later : 0 ≤ (rest.map fees).sum := sum_nonneg (by simp [valid])
    have now : fees addr ≤ bank .feeCollector := (le_add_of_nonneg_right later).trans enough
    obtain ⟨after, sent⟩ : ∃ after, bank.sendCoins .feeCollector (.user addr) (fees addr) = .ok after :=
      Bank.sendCoins_succeeds (valid addr) now
    obtain ⟨-, -, same⟩ := sendCoins_moved sent
    have atCollector : after .feeCollector = bank .feeCollector - fees addr := by
      rw [same]
      simp [moved]
    have atUser : ∀ user, after (.user user) = bank (.user user) + if user = addr then fees addr else 0 := by
      intro user
      rw [same]
      simp [moved]
    have left : (rest.map fees).sum ≤ after .feeCollector := by
      rw [atCollector]
      exact le_sub_iff_add_le'.mpr enough
    have step : payAll fees (addr :: rest) bank = payAll fees rest after := by
      unfold payAll
      rw [foldlM_cons, sent]
      rfl
    rw [step, ih distinct.of_cons left]
    refine congrArg Except.ok (funext fun account => ?_)
    cases account with
    | feeCollector =>
      rw [atCollector, map_cons, sum_cons, sub_sub]
    | user user =>
      dsimp only
      rw [atUser, add_assoc]
      congr 1
      by_cases here : user = addr
      · subst here
        simp [(nodup_cons.mp distinct).1]
      · simp [here]

theorem updateFeeCollectorHandler_ok [LinearOrder User] {balance : Coins Denom}

    (valid : ∀ split ∈ splits, 0 ≤ split.fee)
    (enough : (splits.map FeeSplitInfo.fee).sum ≤ withBalance balance bank .feeCollector) :
    updateFeeCollectorHandler balance splits bank = .ok (paid splits (withBalance balance bank)) := by
  have grouped : groupByAddr splits = total splits := funext (groupByAddr_eq splits)
  have summed := sum_sortAddrs splits
  have distinct : (sortAddrs splits).Nodup := Finset.sort_nodup _ _
  unfold updateFeeCollectorHandler
  rw [grouped, payAll_ok distinct (total_nonneg valid) (by rw [summed]; exact enough), summed]
  refine congrArg Except.ok (funext fun account => ?_)
  cases account with
  | feeCollector => rfl
  | user user =>
    dsimp only [paid]
    congr 1
    split
    · rfl
    rename_i absent
    have unsplit : user ∉ splits.map FeeSplitInfo.addr := by
      intro mem
      exact absent ((Finset.mem_sort _).mpr (mem_toFinset.mpr mem))
    exact (total_of_not_mem unsplit).symm

end

section

variable {User Denom : Type} [DecidableEq Denom] {bondDenom : Denom}

theorem single_le_single {a b : Dec} (le : a ≤ b) : Coins.single bondDenom a ≤ Coins.single bondDenom b := by
  simpa [Coins.single_eq] using le

variable {info : FeeSplitInfo User Denom} {payer : User}

theorem feeSplit_some {gas consumed : Nat} {price : Int} {hook : SplitHook User}
    (noted : feeSplit bondDenom (.evm payer gas price) consumed hook = some info)
    (cost : 0 ≤ price * (consumed : Int)) (fraction : hook.share ≤ Dec.one) :
    0 < price * (consumed : Int) ∧ 0 ≤ info.fee ∧ info.fee ≤ Coins.single bondDenom (price * consumed) := by
  unfold feeSplit at noted
  dsimp only at noted
  split at noted
  · rename_i positive
    cases noted
    have bound := Dec.mul_le cost positive.1.le fraction
    refine ⟨positive.2.trans_le bound, ?_, ?_⟩
    · simpa [Coins.single_eq] using positive.2.le
    · exact single_le_single bound
  · cases noted

/-- What the hook has noted when the messages are through, with the gas at that time. -/
theorem runMsgs_split {tx : Tx User Denom} {limit : Nat} {msgs : MsgRun User Denom}
    (room : ∀ amount ∈ msgs.rest.charges, limit + amount ≤ maxUint64)
    (noted : (runMsgs bondDenom tx (.basic limit 0) msgs).2.2 = some info) :
    ∃ hook consumed total, msgs.hook = some hook ∧ feeSplit bondDenom tx consumed hook = some info ∧
      consumed ≤ limit ∧ consumed ≤ total ∧ (runMsgs bondDenom tx (.basic limit 0) msgs).1 = .basic limit total := by
  unfold runMsgs at noted ⊢
  split at noted
  · cases noted
  rename_i meter charged
  obtain ⟨rfl, within⟩ := charge_calm (Nat.zero_le limit) charged
  rw [Nat.zero_add] at noted within ⊢
  obtain ⟨hook, hookIs, noted⟩ := Option.bind_eq_some_iff.mp noted
  have fits := charge_no_overflow within room
  cases ran : (basic limit msgs.charges.sum).charge msgs.rest.charges with
  | mk meter panic =>
    rw [ran] at fits
    obtain ⟨total, rfl, more⟩ := consumed_le_charge ran fits
    refine ⟨hook, msgs.charges.sum, total, hookIs, noted, within, more, ?_⟩
    unfold Stretch.run
    rw [ran]
    cases panic <;> rfl

variable [DecidableEq User] [Fintype Denom]

/-- The shares are fractions, and no charge after the hook brings the meter near 2^64. -/
structure Run.Fair {tx : Tx User Denom} (run : Run tx) : Prop where
  share : ∀ hook, run.msgs.hook = some hook → 0 ≤ hook.share ∧ hook.share ≤ Dec.one
  room : ∀ amount ∈ run.msgs.rest.charges, tx.gas + amount ≤ maxUint64

variable {bank : Bank (Account User) Denom} {tx : Tx User Denom} {run : Run tx}
  {info : FeeSplitInfo User Denom}

section

variable {body : Body User Denom} (ran : runBody bondDenom tx run bank = body)

include ran

theorem runBody_split (fair : run.Fair) (noted : body.split = some info) :
    body.anteOk = true ∧ tx.isEvm = true ∧
    ∃ hook consumed total, run.msgs.hook = some hook ∧ feeSplit bondDenom tx consumed hook = some info ∧
      consumed ≤ tx.gas ∧ consumed ≤ total ∧ body.meter = .basic tx.gas total := by
  cases passed : body.anteOk with
  | false => exact absurd ((runBody_of_failed ran passed).2.1.symm.trans noted) nofun
  | true =>
    obtain ⟨-, -, -, start, evm, sent⟩ := runBody_of_ante ran passed
    have ended : (runMsgs bondDenom tx start run.msgs).2.2 = some info := by rw [sent, noted]
    cases tx with
    | std =>
      unfold runMsgs at ended
      split at ended
      · cases ended
      · cases hook : run.msgs.hook <;> rw [hook] at ended <;> cases ended
    | evm =>
      obtain rfl := evm rfl
      have split := runMsgs_split fair.room ended
      rw [sent] at split
      exact ⟨rfl, rfl, split⟩

/-- The split of a transaction is covered by what it paid, whatever happened after the hook. -/
theorem deferRefund_covers (held : 0 ≤ bank .feeCollector) (fair : run.Fair)
    (noted : (deferRefund bondDenom tx body).split = some info) :
    body.anteOk = true ∧ 0 ≤ info.fee ∧
      info.fee ≤ tx.fee bondDenom - (deferRefund bondDenom tx body).refund := by
  obtain ⟨passed, evm, hook, consumed, total, hookIs, split, within, more, meterIs⟩ :=
    runBody_split ran fair (deferRefund_split noted)
  obtain ⟨valid, -⟩ := runBody_of_ante ran passed
  obtain ⟨-, -, -, nothing, priced⟩ := deferRefund_of_ante ran held passed
  cases tx with
  | std => cases evm
  | evm payer gas price =>
    change consumed ≤ gas at within
    have whole : 0 ≤ price * (gas : Int) := by
      have atBond := valid bondDenom
      simpa [Tx.fee, Coins.single] using atBond
    have cost : 0 ≤ price * (consumed : Int) := by
      rcases Nat.eq_zero_or_pos consumed with none | some
      · rw [none, Nat.cast_zero, mul_zero]
      · have price' : 0 ≤ price := nonneg_of_mul_nonneg_left whole (by omega)
        exact mul_nonneg price' (Int.natCast_nonneg _)
    obtain ⟨positive, nonneg, bound⟩ := feeSplit_some split cost (fair.share hook hookIs).2
    have price' : 0 ≤ price := (pos_of_mul_pos_left positive (Int.natCast_nonneg _)).le
    have gasPos : (gas : Int) ≠ 0 := by
      intro none
      have : (consumed : Int) = 0 := by omega
      rw [this, mul_zero] at positive
      exact lt_irrefl _ positive
    refine ⟨passed, nonneg, bound.trans ?_⟩
    intro denom
    by_cases out : body.exit = .panic .outOfGas
    · have more : price * (consumed : Int) ≤ price * gas := mul_le_mul_of_nonneg_left (by omega) price'
      rw [nothing (.inl out), sub_zero]
      exact single_le_single more denom
    have kept := priced out (fun d => ?_) denom
    · rw [deferRefund_meter rfl out, meterIs] at kept
      have more : price * (consumed : Int) ≤ price * total := mul_le_mul_of_nonneg_left (by omega) price'
      refine le_trans ?_ kept.ge
      simp only [Tx.fee, Tx.gas, Coins.single]
      split
      · rw [Int.mul_ediv_cancel _ gasPos]
        exact more
      · simp
    · simp only [Tx.fee, Coins.single]
      split
      · exact Int.dvd_mul_left _ _
      · exact dvd_zero _

/-- The body and the refund leave the collector with at least the split more. -/
theorem deferRefund_collector (held : 0 ≤ bank .feeCollector) (fair : run.Fair) :
    (∀ split ∈ (deferRefund bondDenom tx body).split.toList, 0 ≤ split.fee) ∧
    bank .feeCollector + ((deferRefund bondDenom tx body).split.toList.map FeeSplitInfo.fee).sum ≤
      (deferRefund bondDenom tx body).bank .feeCollector := by
  cases passed : body.anteOk with
  | false =>
    rw [(deferRefund_of_failed ran passed).1]
    cases noted : (deferRefund bondDenom tx body).split with
    | none => exact ⟨nofun, (add_zero _).le⟩
    | some info => exact absurd (passed.symm.trans (deferRefund_covers ran held fair noted).1) Bool.false_ne_true
  | true =>
    obtain ⟨-, bound, sent, -⟩ := deferRefund_of_ante ran held passed
    obtain ⟨-, bankIs, -⟩ := runBody_of_ante ran passed
    have grown : bank .feeCollector + tx.fee bondDenom ≤ body.bank .feeCollector := by
      have deducted : moved bank (.user tx.payer) .feeCollector (tx.fee bondDenom) .feeCollector =
          bank .feeCollector + tx.fee bondDenom := by
        simp [moved]
      rw [bankIs]
      split
      · rw [← deducted]
        exact run.msgs.keeps _
      · rw [deducted]
    have kept : bank .feeCollector + (tx.fee bondDenom - (deferRefund bondDenom tx body).refund) ≤
        (deferRefund bondDenom tx body).bank .feeCollector := by
      rw [sent, ← add_sub_assoc]
      simp only [moved, reduceCtorEq, if_false, add_zero]
      exact sub_le_sub_right grown _
    cases noted : (deferRefund bondDenom tx body).split with
    | none =>
      refine ⟨nofun, le_trans ?_ kept⟩
      exact add_le_add_right (sub_nonneg.mpr bound) _
    | some info =>
      obtain ⟨-, nonneg, covered⟩ := deferRefund_covers ran held fair noted
      simp only [Option.toList_some, mem_singleton, forall_eq, map_cons, map_nil, sum_singleton]
      exact ⟨nonneg, (add_le_add_right covered _).trans kept⟩

end

theorem runTx_collector (held : 0 ≤ bank .feeCollector) (fair : run.Fair) (blockMeter : GasMeter) :
    (∀ split ∈ (runTx bondDenom tx run bank blockMeter).split.toList, 0 ≤ split.fee) ∧
    bank .feeCollector + ((runTx bondDenom tx run bank blockMeter).split.toList.map FeeSplitInfo.fee).sum ≤
      (runTx bondDenom tx run bank blockMeter).bank .feeCollector := by
  unfold runTx
  split
  · exact ⟨nofun, (add_zero _).le⟩
  · exact deferRefund_collector rfl held fair

end

variable {User Denom : Type} [DecidableEq User] [Fintype Denom] [DecidableEq Denom] (bondDenom : Denom)

/-- A transaction of a block, with all that happens in it. -/
structure Delivery (User Denom : Type) where
  tx : Tx User Denom
  run : Run tx

structure BlockState (User Denom : Type) where
  bank : Bank (Account User) Denom
  blockMeter : GasMeter
  splits : List (FeeSplitInfo User Denom)

/-- DeliverTx, with the FeeSplitCollector. -/
def deliverTx (state : BlockState User Denom) (delivery : Delivery User Denom) : BlockState User Denom :=
  let out := runTx bondDenom delivery.tx delivery.run state.bank state.blockMeter
  ⟨out.bank, out.blockMeter, state.splits ++ out.split.toList⟩

def deliverTxs (state : BlockState User Denom) (block : List (Delivery User Denom)) : BlockState User Denom :=
  block.foldl (deliverTx bondDenom) state

/-- The collected splits are amounts, and the fee collector holds them all. -/
structure BlockState.Covered (state : BlockState User Denom) : Prop where
  valid : ∀ split ∈ state.splits, 0 ≤ split.fee
  enough : (state.splits.map FeeSplitInfo.fee).sum ≤ state.bank .feeCollector

/-- A transaction that ran in parallel, on the balances it saw. -/
structure AsyncDelivery (User Denom : Type) extends Delivery User Denom where
  seen : Bank (Account User) Denom
  noBlockGas : Bool

structure AsyncDelivery.Fair (delivery : AsyncDelivery User Denom) : Prop where
  run : delivery.run.Fair
  held : 0 ≤ delivery.seen .feeCollector
  fee : 0 ≤ delivery.tx.fee bondDenom

/-- What asyncCb reads of a result. -/
structure ExecuteResult (User Denom : Type) where
  msIsNil : Bool
  fee : Coins Denom
  refundFee : Coins Denom
  split : Option (FeeSplitInfo User Denom)

/-- A transaction without a store, or whose ante handler returned an error (not a panic), has no
part in the fees. -/
def AsyncDelivery.result (delivery : AsyncDelivery User Denom) : ExecuteResult User Denom :=
  if delivery.noBlockGas then ⟨true, delivery.tx.fee bondDenom, 0, none⟩
  else
    let body := runBody bondDenom delivery.tx delivery.run delivery.seen
    let settled := deferRefund bondDenom delivery.tx body
    ⟨!body.anteOk && decide (body.exit = .error), delivery.tx.fee bondDenom, settled.refund, settled.split⟩

/-- What currTxFee is when all results are in. -/
def currTxFee (results : List (ExecuteResult User Denom)) : Coins Denom :=
  ((results.filter fun result => !result.msIsNil).map fun result => result.fee - result.refundFee).sum

variable {bondDenom} {bank : Bank (Account User) Denom} {state : BlockState User Denom}

omit [DecidableEq User] [Fintype Denom] [DecidableEq Denom] in
theorem BlockState.Covered.held (covered : state.Covered) : 0 ≤ state.bank .feeCollector := by
  refine le_trans (sum_nonneg ?_) covered.enough
  intro fee mem
  obtain ⟨split, noted, rfl⟩ := mem_map.mp mem
  exact covered.valid split noted

theorem deliverTx_covered {delivery : Delivery User Denom} (covered : state.Covered)
    (fair : delivery.run.Fair) : (deliverTx bondDenom state delivery).Covered := by
  obtain ⟨nonneg, grown⟩ := runTx_collector covered.held fair state.blockMeter
  constructor
  · intro split mem
    rcases mem_append.mp mem with before | now
    · exact covered.valid split before
    · exact nonneg split now
  · dsimp only [deliverTx]
    rw [map_append, sum_append]
    exact (add_le_add_left covered.enough _).trans grown

theorem deliverTxs_covered {block : List (Delivery User Denom)} (covered : state.Covered)
    (fair : ∀ delivery ∈ block, delivery.run.Fair) : (deliverTxs bondDenom state block).Covered := by
  induction block generalizing state with
  | nil => exact covered
  | cons delivery rest ih =>
    exact ih (deliverTx_covered covered (fair delivery mem_cons_self))
      (fun d mem => fair d (mem_cons_of_mem _ mem))

theorem result_covers {delivery : AsyncDelivery User Denom} (fair : delivery.Fair bondDenom) :
    (∀ split ∈ (delivery.result bondDenom).split.toList, 0 ≤ split.fee) ∧
    ((delivery.result bondDenom).split.toList.map FeeSplitInfo.fee).sum ≤ currTxFee [delivery.result bondDenom] := by
  unfold AsyncDelivery.result
  split
  · exact ⟨by simp, le_refl _⟩
  dsimp only [currTxFee]
  cases noted : (deferRefund bondDenom delivery.tx
      (runBody bondDenom delivery.tx delivery.run delivery.seen)).split with
  | some info =>
    obtain ⟨passed, nonneg, bound⟩ := deferRefund_covers rfl fair.held fair.run noted
    simp only [passed, Bool.not_true, Bool.false_and, Bool.not_false, filter_cons_of_pos, filter_nil,
      Option.toList_some, mem_singleton, forall_eq, map_cons, map_nil, sum_singleton]
    exact ⟨nonneg, bound⟩
  | none =>
    refine ⟨by simp, sum_nonneg ?_⟩
    intro fee mem
    obtain ⟨_, held, rfl⟩ := mem_map.mp mem
    obtain ⟨isResult, -⟩ := mem_filter.mp held
    obtain rfl := mem_singleton.mp isResult
    apply sub_nonneg.mpr
    cases passed : (runBody bondDenom delivery.tx delivery.run delivery.seen).anteOk with
    | true => exact (deferRefund_of_ante rfl fair.held passed).2.1
    | false =>
      rw [(deferRefund_of_failed rfl passed).2]
      exact fair.fee

omit [DecidableEq User] [Fintype Denom] [DecidableEq Denom] in
theorem currTxFee_cons (result : ExecuteResult User Denom) (rest : List (ExecuteResult User Denom)) :
    currTxFee (result :: rest) = currTxFee [result] + currTxFee rest := by
  unfold currTxFee
  rw [filter_cons]
  split <;> simp [*]

def collected (results : List (ExecuteResult User Denom)) : List (FeeSplitInfo User Denom) :=
  results.flatMap fun result => result.split.toList

theorem results_covered {block : List (AsyncDelivery User Denom)} (fair : ∀ delivery ∈ block, delivery.Fair bondDenom) :
    (∀ split ∈ collected (block.map (AsyncDelivery.result bondDenom)), 0 ≤ split.fee) ∧
    ((collected (block.map (AsyncDelivery.result bondDenom))).map FeeSplitInfo.fee).sum ≤
      currTxFee (block.map (AsyncDelivery.result bondDenom)) := by
  induction block with
  | nil => exact ⟨nofun, le_refl _⟩
  | cons delivery rest ih =>
    obtain ⟨valid, bound⟩ := ih fun d mem => fair d (mem_cons_of_mem _ mem)
    obtain ⟨validHere, boundHere⟩ := result_covers (fair delivery mem_cons_self)
    rw [map_cons, currTxFee_cons]
    unfold collected at valid bound ⊢
    rw [flatMap_cons, map_append, sum_append]
    refine ⟨?_, add_le_add boundHere bound⟩
    intro split mem
    rcases mem_append.mp mem with here | later
    · exact validHere split here
    · exact valid split later

omit [DecidableEq Denom] in
theorem le_withBalance {balance amt : Coins Denom} (held : 0 ≤ bank .feeCollector)
    (bound : amt ≤ balance) : amt ≤ withBalance balance bank .feeCollector := by
  unfold withBalance
  split
  · rename_i none
    rw [none] at bound
    exact bound.trans held
  · exact bound

omit [DecidableEq Denom] in
theorem handler_perm [LinearOrder User] {balance : Coins Denom} {splits splits' : List (FeeSplitInfo User Denom)}
    (perm : splits'.Perm splits) (valid : ∀ split ∈ splits, 0 ≤ split.fee)
    (enough : (splits.map FeeSplitInfo.fee).sum ≤ withBalance balance bank .feeCollector) :
    updateFeeCollectorHandler balance splits' bank = .ok (paid splits (withBalance balance bank)) := by
  have same : (splits'.map FeeSplitInfo.fee).sum = (splits.map FeeSplitInfo.fee).sum := (perm.map _).sum_eq
  have valid' : ∀ split ∈ splits', 0 ≤ split.fee := fun split mem => valid split (perm.mem_iff.mp mem)
  rw [updateFeeCollectorHandler_ok valid' (by rw [same]; exact enough)]
  refine congrArg Except.ok (funext fun account => ?_)
  cases account with
  | feeCollector => exact congrArg (withBalance balance bank .feeCollector - ·) same
  | user user => exact congrArg (withBalance balance bank (.user user) + ·) (congrFun (total_perm perm) user)

def sharedCall : Delivery Nat Unit := ⟨.evm 1 100000 7, true, .evm .done none,
    ⟨[21000, 30000], some ⟨2, Dec.withPrec 5 1⟩, ⟨[100], .done⟩, id, fun _ => le_refl _⟩, 0⟩

def sharedBank : Bank (Account Nat) Unit := fun _ _ => 1000000

end Exchain.BaseApp
