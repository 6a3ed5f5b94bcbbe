import Exchain.BaseApp.RunTx

namespace Exchain.BaseApp

open GasMeter
variable {User Denom : Type} [DecidableEq User]

def moved (bank : Bank (Account User) Denom) (sender recipient : Account User) (amt : Coins Denom) :
    Bank (Account User) Denom :=
  fun account => bank account - (if account = sender then amt else 0) + (if account = recipient then amt else 0)

@[simp] theorem moved_zero (bank : Bank (Account User) Denom) (sender recipient : Account User) :
    moved bank sender recipient 0 = bank := by
  funext account
  simp [moved]

theorem sendCoins_moved [Fintype Denom] {bank bank' : Bank (Account User) Denom} {sender recipient : Account User}
    {amt : Coins Denom} (done : bank.sendCoins sender recipient amt = .ok bank') :
    0 ≤ amt ∧ amt ≤ bank sender ∧ bank' = moved bank sender recipient amt := by
  obtain ⟨valid, enough, sent⟩ := Bank.sendCoins_ok done
  exact ⟨valid, enough, funext sent⟩

/-- What is left of the gas is refunded, and what is kept is the price of the gas used. -/
theorem calculateRefundFees_bounds {fee : Coins Denom} {gasUsed gas : Nat} (valid : 0 ≤ fee) (within : gasUsed ≤ gas) :
    0 ≤ calculateRefundFees gasUsed gas fee ∧ calculateRefundFees gasUsed gas fee ≤ fee := by
  have priced : ∀ denom, 0 ≤ fee denom / (gas : Int) * gasUsed ∧ fee denom / (gas : Int) * gasUsed ≤ fee denom := by
    intro denom
    have price : 0 ≤ fee denom / (gas : Int) := Int.ediv_nonneg (valid denom) (Int.natCast_nonneg gas)
    have whole : fee denom / (gas : Int) * gas ≤ fee denom := by
      by_cases none : gas = 0
      · subst none
        simpa using valid denom
      · exact Int.ediv_mul_le _ (by exact_mod_cast none)
    have less : fee denom / (gas : Int) * gasUsed ≤ fee denom / (gas : Int) * gas :=
      mul_le_mul_of_nonneg_left (by exact_mod_cast within) price
    exact ⟨mul_nonneg price (Int.natCast_nonneg gasUsed), less.trans whole⟩
  constructor
  · intro denom
    exact sub_nonneg.mpr (priced denom).2
  · intro denom
    exact sub_le_self _ (priced denom).1

variable [DecidableEq Denom] [Fintype Denom] {bondDenom : Denom}
  {bank : Bank (Account User) Denom} {tx : Tx User Denom}

theorem deductFees_some {deducted : Bank (Account User) Denom}
    (done : deductFees bondDenom tx bank = some deducted) :
    0 ≤ tx.fee bondDenom ∧ deducted = moved bank (.user tx.payer) .feeCollector (tx.fee bondDenom) := by
  unfold deductFees at done
  split at done
  · rename_i free
    cases done
    rw [free, moved_zero]
    exact ⟨le_refl _, rfl⟩
  cases sent : bank.sendCoins (.user tx.payer) .feeCollector (tx.fee bondDenom) with
  | error e =>
    rw [sent] at done
    cases done
  | ok =>
    rw [sent] at done
    cases done
    obtain ⟨valid, _, same⟩ := sendCoins_moved sent
    exact ⟨valid, same⟩

theorem Stretch.run_within (stretch : Stretch) {limit consumed : Nat} (start : consumed ≤ limit)
    (gasLeft : (stretch.run (.basic limit consumed)).2 ≠ .panic .outOfGas) :
    ∃ total, (stretch.run (.basic limit consumed)).1 = .basic limit total ∧ total ≤ limit := by
  unfold Stretch.run at gasLeft ⊢
  split
  · rename_i meter panic charged
    rw [charged] at gasLeft
    apply charge_within start charged
    intro ran
    exact gasLeft (congrArg Exit.panic (Option.some.inj ran))
  · rename_i meter charged
    exact charge_within start charged nofun

variable {isEvm : Bool} {run : Run tx} {ante : AnteRun isEvm}

/-- How the EVM ante handler ends: with the fee taken and no gas charged, or without a limit. -/
theorem anteHandler_evm (bondDenom : Denom) (tx : Tx User Denom) (bank : Bank (Account User) Denom)
    (ante : AnteRun isEvm) (evm : isEvm = true) :
    (∃ deducted, deductFees bondDenom tx bank = some deducted ∧
        anteHandler bondDenom tx bank ante = ⟨.done, some (.basic tx.gas 0), deducted⟩) ∨
      (anteHandler bondDenom tx bank ante).exit ≠ .done ∧
        ∀ consumed, ((anteHandler bondDenom tx bank ante).meter.getD (.infinite consumed)).limit = 0 := by
  cases ante with
  | std => cases evm
  | evm before after =>
    unfold anteHandler
    cases before with
    | error => exact .inr ⟨nofun, fun _ => rfl⟩
    | panic p => cases p <;> exact .inr ⟨nofun, fun _ => rfl⟩
    | done =>
      cases deductFees bondDenom tx bank with
      | none => exact .inr ⟨nofun, fun _ => rfl⟩
      | some deducted =>
        cases after with
        | none => exact .inl ⟨deducted, rfl, rfl⟩
        | some p => cases p <;> exact .inr ⟨nofun, fun _ => rfl⟩

theorem anteHandler_evm_meter (evm : isEvm = true)
    (done : (anteHandler bondDenom tx bank ante).exit = .done) :
    (anteHandler bondDenom tx bank ante).meter = some (.basic tx.gas 0) := by
  obtain ⟨_, -, same⟩ | ⟨failed, -⟩ := anteHandler_evm bondDenom tx bank ante evm
  · rw [same]
  · exact absurd done failed

theorem anteHandler_done (done : (anteHandler bondDenom tx bank ante).exit = .done) :
    0 ≤ tx.fee bondDenom ∧
    (anteHandler bondDenom tx bank ante).bank = moved bank (.user tx.payer) .feeCollector (tx.fee bondDenom) ∧
    ∃ consumed, (anteHandler bondDenom tx bank ante).meter = some (.basic tx.gas consumed) ∧ consumed ≤ tx.gas := by
  cases ante with
  | std before after =>
    unfold anteHandler at done ⊢
    dsimp only at done ⊢
    cases ranBefore : before.run (.basic tx.gas 0) with
    | mk meter exit =>
      have within := Stretch.run_within before (Nat.zero_le tx.gas)
      rw [ranBefore] at done within
      cases exit with
      | error => cases done
      | panic p => cases p <;> cases done
      | done =>
        obtain ⟨consumed, rfl, bound⟩ := within nofun
        dsimp only at done ⊢
        cases paid : deductFees bondDenom tx bank with
        | none =>
          rw [paid] at done
          cases done
        | some =>
          rw [paid] at done
          obtain ⟨valid, same⟩ := deductFees_some paid
          have withinAfter := Stretch.run_within after bound
          cases ranAfter : after.run (.basic tx.gas consumed) with
          | mk meter exit =>
            rw [ranAfter] at done withinAfter
            cases exit with
            | error => cases done
            | panic p => cases p <;> cases done
            | done =>
              obtain ⟨total, rfl, bound⟩ := withinAfter nofun
              exact ⟨valid, same, total, rfl, bound⟩
  | evm before after =>
    obtain ⟨_, paid, same⟩ | ⟨failed, -⟩ := anteHandler_evm bondDenom tx bank (.evm before after) rfl
    · rw [same]
      obtain ⟨valid, after⟩ := deductFees_some paid
      exact ⟨valid, after, 0, rfl, Nat.zero_le _⟩
    · exact absurd done failed

/-- The refund of a transaction whose fee was taken goes through; the meter and the refund say what
was kept. -/
theorem gasRefund_settles (outOfGas : Bool) (consumed : Nat)
    (valid : 0 ≤ tx.fee bondDenom) (covered : tx.fee bondDenom ≤ bank .feeCollector) :
    ∃ refund meter, gasRefund bondDenom tx outOfGas (.basic tx.gas consumed) bank =
        some (refund, meter, moved bank .feeCollector (.user tx.payer) refund) ∧
      0 ≤ refund ∧ refund ≤ tx.fee bondDenom ∧
      (outOfGas = true ∨ tx.gas ≤ consumed → refund = 0) ∧
      (outOfGas = false → consumed ≤ tx.gas → (∀ denom, (tx.gas : Int) ∣ tx.fee bondDenom denom) →
        ∀ denom, tx.fee bondDenom denom - refund denom =
          tx.fee bondDenom denom / tx.gas * meter.gasConsumed) := by
  unfold gasRefund
  by_cases full : tx.gas ≤ consumed
  · rw [if_pos (show (basic tx.gas consumed).limit ≤ (basic tx.gas consumed).gasConsumed from full)]
    refine ⟨0, _, by rw [moved_zero], le_refl _, valid, fun _ => rfl, ?_⟩
    intro _ within multiple denom
    have exact' : consumed = tx.gas := Nat.le_antisymm within full
    show tx.fee bondDenom denom - 0 = tx.fee bondDenom denom / tx.gas * (consumed : Nat)
    rw [exact', Int.ediv_mul_cancel (multiple denom), sub_zero]
  rw [if_neg (show ¬ (basic tx.gas consumed).limit ≤ (basic tx.gas consumed).gasConsumed from full)]
  cases outOfGas with
  | true => exact ⟨0, _, by rw [moved_zero]; rfl, le_refl _, valid, fun _ => rfl, nofun⟩
  | false =>
    obtain ⟨nonneg, bound⟩ := calculateRefundFees_bounds valid (Nat.le_of_not_le full)
    obtain ⟨after, sent⟩ : ∃ after, bank.sendCoins .feeCollector (.user tx.payer) _ = .ok after :=
      Bank.sendCoins_succeeds nonneg (bound.trans covered)
    obtain ⟨-, -, same⟩ := sendCoins_moved sent
    refine ⟨_, .basic tx.gas consumed, ?_, nonneg, bound, fun none => absurd none (by simp [full]), ?_⟩
    · rw [← same, if_neg Bool.false_ne_true]
      dsimp only [gasConsumed]
      rw [sent]
    · intro _ _ _ denom
      exact sub_sub_cancel _ _

/-- CalculateRefundFees for a fee of one coin, with the gas limit its price stands for. A price of
zero, or above the fee, divides by zero. -/
def calculateRefundFeesOfPrice (gasUsed : Nat) (denom : Denom) (fee : Coins Denom) (gasPrice : Int) :
    Option (Coins Denom) :=
  let gas := (fee denom / gasPrice).natAbs % (maxUint64 + 1)
  if gasPrice = 0 ∨ gas = 0 then none else some (calculateRefundFees gasUsed gas fee)

section

variable {outOfGas : Bool} {used : Nat} {refund : Coins Denom} {meter : GasMeter}
  {bank' : Bank (Account User) Denom}

theorem gasRefund_cases (within : used ≤ tx.gas)
    (paid : gasRefund bondDenom tx outOfGas (.basic tx.gas used) bank = some (refund, meter, bank')) :
    refund = 0 ∧ meter.gasConsumed = tx.gas ∧ (outOfGas = false → used = tx.gas) ∨
    outOfGas = false ∧ used < tx.gas ∧ meter.gasConsumed = used ∧
      refund = calculateRefundFees used tx.gas (tx.fee bondDenom) := by
  unfold gasRefund at paid
  split at paid
  · rename_i full
    cases paid
    exact .inl ⟨rfl, within.antisymm full, fun _ => within.antisymm full⟩
  rename_i partly
  split at paid
  · rename_i out
    cases paid
    exact .inl ⟨rfl, rfl, fun calm => absurd (calm.symm.trans out) Bool.false_ne_true⟩
  rename_i calm
  dsimp only at paid
  split at paid
  · cases paid
    exact .inr ⟨Bool.not_eq_true _ ▸ calm, Nat.not_le.mp partly, rfl, rfl⟩
  · cases paid

theorem gasRefund_antitone {more : Nat} {less : Coins Denom} {bank₁ bank₂ : Bank (Account User) Denom}
    {meter₁ : GasMeter} (valid : 0 ≤ tx.fee bondDenom) (order : used ≤ more) (within : more ≤ tx.gas)
    (paid : gasRefund bondDenom tx outOfGas (.basic tx.gas used) bank = some (refund, meter, bank'))
    (paid₁ : gasRefund bondDenom tx outOfGas (.basic tx.gas more) bank₁ = some (less, meter₁, bank₂)) :
    less ≤ refund := by
  obtain ⟨rfl, -, full⟩ | ⟨calm, partly, -, rfl⟩ := gasRefund_cases (order.trans within) paid
  · obtain ⟨rfl, -⟩ | ⟨calm, _, -⟩ := gasRefund_cases within paid₁
    · exact le_rfl
    · exact absurd (full calm) (by omega)
  obtain ⟨rfl, -⟩ | ⟨-, -, -, rfl⟩ := gasRefund_cases within paid₁
  · exact (calculateRefundFees_bounds valid partly.le).1
  intro denom
  have price := Int.ediv_nonneg (valid denom) (Int.natCast_nonneg tx.gas)
  exact sub_le_sub_left (mul_le_mul_of_nonneg_left (by exact_mod_cast order) price) _

end

omit [DecidableEq User] [Fintype Denom] in
theorem runMsgs_meter {limit consumed : Nat} (start : consumed ≤ limit) (msgs : MsgRun User Denom) :
    ∃ total, (runMsgs bondDenom tx (.basic limit consumed) msgs).1 = .basic limit total ∧
      ((runMsgs bondDenom tx (.basic limit consumed) msgs).2.1 ≠ .panic .outOfGas → total ≤ limit) := by
  unfold runMsgs
  split
  · rename_i meter panic charged
    obtain ⟨total, basic⟩ := charge_basic limit consumed msgs.charges
    rw [charged] at basic
    refine ⟨total, basic, ?_⟩
    intro gasLeft
    obtain ⟨_, basic', within⟩ := charge_within start charged
      (fun ran => gasLeft (congrArg Exit.panic (Option.some.inj ran)))
    cases basic.symm.trans basic'
    exact within
  rename_i meter charged
  obtain ⟨rfl, within⟩ := charge_calm start charged
  obtain ⟨total, basic⟩ := charge_basic limit (consumed + msgs.charges.sum) msgs.rest.charges
  have ran : (msgs.rest.run (.basic limit (consumed + msgs.charges.sum))).1 = .basic limit total := by
    rw [← basic]
    unfold Stretch.run
    split <;> rename_i charged <;> rw [charged]
  refine ⟨total, ran, ?_⟩
  intro gasLeft
  obtain ⟨_, basic', bound⟩ := msgs.rest.run_within within gasLeft
  cases ran.symm.trans basic'
  exact bound

section

variable {body : Body User Denom} (ran : runBody bondDenom tx run bank = body)

include ran

theorem runBody_of_ante (passed : body.anteOk = true) :
    0 ≤ tx.fee bondDenom ∧
    body.bank = (if body.exit = .done
        then run.msgs.effect (moved bank (.user tx.payer) .feeCollector (tx.fee bondDenom))
        else moved bank (.user tx.payer) .feeCollector (tx.fee bondDenom)) ∧
    (∃ total, body.meter = .basic tx.gas total ∧ (body.exit ≠ .panic .outOfGas → total ≤ tx.gas)) ∧
    ∃ start, (tx.isEvm = true → start = .basic tx.gas 0) ∧
      runMsgs bondDenom tx start run.msgs = (body.meter, body.exit, body.split) := by
  subst ran
  unfold runBody at passed ⊢
  split at passed
  · cases passed
  rename_i valid
  rw [if_neg valid]
  dsimp only at passed ⊢
  split at passed
  · rename_i done
    rw [if_pos done]
    have evm := fun isEvm => (anteHandler_evm_meter isEvm done).symm
    obtain ⟨nonneg, paid, _, meterIs, within⟩ := anteHandler_done done
    rw [meterIs] at evm ⊢
    rw [paid]
    exact ⟨nonneg, rfl, runMsgs_meter within run.msgs, _, fun isEvm => (Option.some.inj (evm isEvm)).symm, rfl⟩
  · cases passed

theorem runBody_of_failed (failed : body.anteOk = false) :
    body.bank = bank ∧ body.split = none ∧ (tx.isEvm = true → body.meter.limit = 0) := by
  subst ran
  unfold runBody at failed ⊢
  split
  · exact ⟨rfl, rfl, fun _ => rfl⟩
  rename_i valid
  rw [if_neg valid] at failed
  dsimp only at failed ⊢
  split
  · rename_i done
    rw [if_pos done] at failed
    cases failed
  rename_i notDone
  refine ⟨rfl, rfl, fun evm => ?_⟩
  obtain ⟨_, -, same⟩ | ⟨-, unlimited⟩ := anteHandler_evm bondDenom tx bank run.ante evm
  · exact absurd (by rw [same]) notDone
  · exact unlimited run.ctxConsumed

theorem deferRefund_of_failed (failed : body.anteOk = false) :
    (deferRefund bondDenom tx body).bank = bank ∧ (deferRefund bondDenom tx body).refund = 0 := by
  obtain ⟨same, -, limitless⟩ := runBody_of_failed ran failed
  unfold deferRefund
  split
  · rename_i tried
    have evm : tx.isEvm = true := by
      unfold refunds at tried
      rw [failed, Bool.false_and, Bool.or_false] at tried
      exact tried
    unfold gasRefund
    rw [if_pos (by rw [limitless evm]; exact Nat.zero_le _)]
    exact ⟨same, rfl⟩
  · exact ⟨same, rfl⟩

theorem deferRefund_of_ante (held : 0 ≤ bank .feeCollector) (passed : body.anteOk = true) :
    let settled := deferRefund bondDenom tx body
    0 ≤ settled.refund ∧ settled.refund ≤ tx.fee bondDenom ∧
    settled.bank = moved body.bank .feeCollector (.user tx.payer) settled.refund ∧
    (body.exit = .panic .outOfGas ∨ (tx.isEvm = false ∧ body.exit ≠ .done) ∨ tx.gas ≤ body.meter.gasConsumed →
      settled.refund = 0) ∧
    (body.exit ≠ .panic .outOfGas → (∀ denom, (tx.gas : Int) ∣ tx.fee bondDenom denom) →
      ∀ denom, tx.fee bondDenom denom - settled.refund denom =
        tx.fee bondDenom denom / tx.gas * settled.meter.gasConsumed) := by
  intro settled
  obtain ⟨valid, bankIs, ⟨total, meterIs, within⟩, -⟩ := runBody_of_ante ran passed
  have covered : tx.fee bondDenom ≤ body.bank .feeCollector := by
    have paid : tx.fee bondDenom ≤ moved bank (.user tx.payer) .feeCollector (tx.fee bondDenom) .feeCollector := by
      simp only [moved, reduceCtorEq, if_false, sub_zero]
      exact le_add_of_nonneg_left held
    rw [bankIs]
    split
    · exact paid.trans (run.msgs.keeps _)
    · exact paid
  have settledIs : settled = deferRefund bondDenom tx body := rfl
  unfold deferRefund at settledIs
  cases tried : refunds tx body with
  | false =>
    rw [tried] at settledIs
    rw [settledIs, if_neg Bool.false_ne_true]
    refine ⟨le_refl _, valid, (moved_zero _ _ _).symm, fun _ => rfl, ?_⟩
    intro _ multiple denom
    have limitIs : (body.meter.setGas body.meter.limit).gasConsumed = tx.gas := by
      rw [meterIs]
      rfl
    show tx.fee bondDenom denom - 0 = tx.fee bondDenom denom / tx.gas * _
    rw [limitIs, Int.ediv_mul_cancel (multiple denom), sub_zero]
  | true =>
    obtain ⟨_, _, refunded, nonneg, bound, nothing, priced⟩ :=
      gasRefund_settles (decide (body.exit = .panic .outOfGas)) total valid covered
    rw [← meterIs] at refunded
    rw [tried, refunded] at settledIs
    rw [settledIs]
    refine ⟨nonneg, bound, rfl, ?_, ?_⟩
    · intro all
      apply nothing
      rcases all with ran | ⟨std, failed⟩ | spent
      · exact .inl (decide_eq_true ran)
      · unfold refunds at tried
        rw [std, Bool.false_or, Bool.and_eq_true] at tried
        exact absurd (of_decide_eq_true tried.2) failed
      · rw [meterIs] at spent
        exact .inr spent
    · intro gasLeft
      exact priced (decide_eq_false gasLeft) (within gasLeft)

omit ran

theorem deferRefund_split {info : FeeSplitInfo User Denom}
    (noted : (deferRefund bondDenom tx body).split = some info) : body.split = some info := by
  unfold deferRefund at noted
  split at noted
  · split at noted
    · exact noted
    · cases noted
  · cases noted

/-- The refund of an EVM transaction leaves the meter, unless the gas ran out. -/
theorem deferRefund_meter (evm : tx.isEvm = true)
    (gasLeft : body.exit ≠ .panic .outOfGas) : (deferRefund bondDenom tx body).meter = body.meter := by
  have tried : refunds tx body = true := by
    unfold refunds
    rw [evm]
    rfl
  unfold deferRefund
  rw [tried, if_pos rfl, decide_eq_false gasLeft]
  unfold gasRefund
  by_cases full : body.meter.limit ≤ body.meter.gasConsumed
  · rw [if_pos full]
  rw [if_neg full]
  dsimp only
  cases sent : body.bank.sendCoins .feeCollector (.user tx.payer)
    (calculateRefundFees body.meter.gasConsumed tx.gas (tx.fee bondDenom)) <;> rfl

/-- The interpreter ran out of gas, and no gu factor made what it had used any cheaper. -/
structure VmRun.OutOfGas (vm : VmRun) (gasLimit : Nat) : Prop where
  ran : vm.err = some .outOfGas
  spent : vm.leftOverGas = 0
  unscaled : vm.guFactor < 0 ∨ Dec.one ≤ vm.guFactor
  fits : vm.gasConsumed gasLimit ≤ maxUint64

theorem VmRun.OutOfGas.transitionDb {vm : VmRun} {gasLimit : Nat} (out : vm.OutOfGas gasLimit) :
    (vm.transitionDb gasLimit).charges = [gasLimit] ∧ (vm.transitionDb gasLimit).ending ≠ .done := by
  have all : gasLimit ≤ vm.gasConsumed gasLimit := by
    unfold VmRun.gasConsumed
    rw [out.spent, Nat.sub_zero]
    split
    · exact le_refl _
    rename_i scaled
    have factor : Dec.precision ≤ vm.guFactor := out.unscaled.resolve_left scaled
    have product : (gasLimit : Int) * Dec.precision ≤ vm.guFactor * gasLimit := by
      rw [mul_comm]
      exact mul_le_mul_of_nonneg_right factor (Int.natCast_nonneg _)
    have quotient := (Int.le_ediv_iff_mul_le Dec.precision_pos).mpr product
    omega
  unfold VmRun.transitionDb
  rw [if_neg (Nat.not_lt.mpr out.fits), out.ran]
  dsimp only
  split
  · exact ⟨rfl, nofun⟩
  rename_i within
  have same : vm.gasConsumed gasLimit = gasLimit := Nat.le_antisymm (Nat.not_lt.mp within) all
  rw [same]
  exact ⟨rfl, nofun⟩

variable {success : MsgRun User Denom}

omit [DecidableEq User] [Fintype Denom] in
theorem runMsgs_vm_spent {vm : VmRun} {before : List Nat}
    (enough : before.sum ≤ tx.gas) (small : tx.gas ≤ maxUint64) (out : vm.OutOfGas (tx.gas - before.sum)) :
    (runMsgs bondDenom tx (.basic tx.gas 0) (vm.msgRun tx.gas before success)).1 = .basic tx.gas tx.gas := by
  obtain ⟨charges, failed⟩ := out.transitionDb
  have first : (basic tx.gas 0).charge before = (.basic tx.gas before.sum, none) := by
    rw [charge_of_fits (by omega) small, Nat.zero_add]
  have second : (basic tx.gas before.sum).charge [tx.gas - before.sum] = (.basic tx.gas tx.gas, none) := by
    rw [charge_of_fits (by simp only [List.sum_singleton]; omega) small, List.sum_singleton,
      Nat.add_sub_cancel' enough]
  unfold VmRun.msgRun runMsgs
  rw [if_neg failed]
  rw [first]
  dsimp only
  unfold Stretch.run
  rw [charges, second]

include ran in
theorem runBody_vm_spent {vm : VmRun} {before : List Nat} (evm : tx.isEvm = true) (passed : body.anteOk = true)
    (msgs : run.msgs = vm.msgRun tx.gas before success) (enough : before.sum ≤ tx.gas)
    (small : tx.gas ≤ maxUint64) (out : vm.OutOfGas (tx.gas - before.sum)) :
    body.meter = .basic tx.gas tx.gas := by
  obtain ⟨-, -, -, _, start, sent⟩ := runBody_of_ante ran passed
  rw [start evm, msgs] at sent
  exact (congrArg Prod.fst sent).symm.trans (runMsgs_vm_spent enough small out)

end

omit [DecidableEq Denom] [Fintype Denom] in
theorem moved_moved (bank : Bank (Account User) Denom) (payer collector : Account User) (fee refund : Coins Denom) :
    moved (moved bank payer collector fee) collector payer refund = moved bank payer collector (fee - refund) := by
  funext account denom
  simp only [moved, Pi.add_apply, Pi.sub_apply]
  split <;> split <;> simp only [Pi.sub_apply, Pi.zero_apply] <;> ring

/-- What a transaction costs: nothing if the ante handler fails, otherwise the fee less a refund,
which is the price of the reported gas if the price is a whole number. There is no refund if the gas
meter ran out, a std transaction failed, or the interpreter ran out of gas and no gu factor made
that cheaper. -/
theorem runTx_cost (tx : Tx User Denom) (run : Run tx) (bank : Bank (Account User) Denom) (blockMeter : GasMeter)
    (held : 0 ≤ bank .feeCollector) : let exit := (runBody bondDenom tx run bank).exit
    let out := runTx bondDenom tx run bank blockMeter
    (out.anteOk = false → out.bank = bank) ∧
    (out.anteOk = true → 0 ≤ out.refund ∧ out.refund ≤ tx.fee bondDenom ∧ (exit ≠ .done →
        out.bank = moved bank (.user tx.payer) .feeCollector (tx.fee bondDenom - out.refund)) ∧
      (exit = .done →
        out.bank = moved (run.msgs.effect (moved bank (.user tx.payer) .feeCollector (tx.fee bondDenom)))
          .feeCollector (.user tx.payer) out.refund) ∧
      (exit ≠ .panic .outOfGas → (∀ denom, (tx.gas : Int) ∣ tx.fee bondDenom denom) →
        ∀ denom, tx.fee bondDenom denom - out.refund denom = tx.fee bondDenom denom / tx.gas * out.gasUsed) ∧
      (exit = .panic .outOfGas ∨ (tx.isEvm = false ∧ exit ≠ .done) → out.refund = 0) ∧
      (∀ (vm : VmRun) (before : List Nat) (success : MsgRun User Denom), tx.isEvm = true → run.msgs = vm.msgRun tx.gas before success → before.sum ≤ tx.gas →
        tx.gas ≤ maxUint64 → vm.OutOfGas (tx.gas - before.sum) → out.refund = 0)) := by
  intro exit out
  have outIs : out = runTx bondDenom tx run bank blockMeter := rfl
  unfold runTx at outIs
  split at outIs
  · rw [outIs]
    exact ⟨fun _ => rfl, nofun⟩
  dsimp only [deferReport] at outIs
  cases passed : (runBody bondDenom tx run bank).anteOk with
  | false =>
    rw [outIs]
    refine ⟨fun _ => (deferRefund_of_failed rfl passed).1, ?_⟩
    intro ok
    exact absurd (passed.symm.trans ok) Bool.false_ne_true
  | true =>
    obtain ⟨nonneg, bound, sent, nothing, priced⟩ := deferRefund_of_ante rfl held passed
    obtain ⟨-, bankIs, -⟩ := runBody_of_ante rfl passed
    rw [outIs]
    rw [passed]
    refine ⟨nofun, fun _ => ⟨nonneg, bound, ?_, ?_, ?_, ?_, ?_⟩⟩
    · intro failed
      rw [sent, bankIs, if_neg failed, moved_moved]
    · intro done
      rw [sent, bankIs, if_pos done]
    · exact priced
    · intro all
      exact nothing (all.imp_right .inl)
    · intro vm before success evm msgs enough small ranOut
      apply nothing
      have spent := runBody_vm_spent rfl evm passed msgs enough small ranOut
      rw [spent]
      exact .inr (.inr (le_refl _))

def noEffect : MsgRun Unit Unit := ⟨[], none, ⟨[], .done⟩, id, fun _ => le_refl _⟩

def contractCall : Tx Unit Unit := .evm () 100000 7

/-- A call whose interpreter runs out of gas, in a contract with a gu factor if there is one. -/
def exhaustedCall (guFactor : Dec) : Run contractCall :=
  ⟨true, .evm .done none, VmRun.msgRun ⟨0, some .outOfGas, guFactor⟩ 100000 [21000] noEffect, 0⟩

def funded : Bank (Account Unit) Unit := fun _ _ => 1000000

/-- With a factor of one half, running out of gas does not cost the whole fee. -/
theorem exhausted_call_refunded :
    let out := runTx () contractCall (exhaustedCall (Dec.withPrec 5 1)) funded (.infinite 0)
    out.anteOk = true ∧ out.failed = true ∧ out.gasUsed = 60500 ∧
      out.bank .feeCollector () - funded .feeCollector () = 423500 ∧ contractCall.fee () () = 700000 := by
  decide +kernel

theorem runTx_cost_exhausted :
    (runTx () contractCall (exhaustedCall (-1)) funded (.infinite 0)).anteOk = true ∧
    (runTx () contractCall (exhaustedCall (-1)) funded (.infinite 0)).refund = 0 := by
  have passed : (runTx () contractCall (exhaustedCall (-1)) funded (.infinite 0)).anteOk = true := by decide +kernel
  have ranOut : VmRun.OutOfGas ⟨0, some .outOfGas, -1⟩ (contractCall.gas - [21000].sum) :=
    ⟨rfl, rfl, .inl (by decide), by decide⟩
  have held : (0 : Coins Unit) ≤ funded .feeCollector := by
    intro denom
    exact Int.natCast_nonneg 1000000
  have cost := @runTx_cost Unit Unit _ _ _ () contractCall (exhaustedCall (-1)) funded (.infinite 0) held
  exact ⟨passed, (cost.2 passed).2.2.2.2.2.2 _ [21000] noEffect rfl rfl (by decide) (by decide) ranOut⟩

end Exchain.BaseApp
