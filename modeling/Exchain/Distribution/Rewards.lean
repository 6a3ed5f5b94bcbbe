import Exchain.Distribution.Store

namespace Exchain.Distribution

open Staking (Address Failure Err Validator Delegator require panicOnError)

variable {Denom : Type} [Fintype Denom]

variable (chain : Chain Denom) (header : Header) (staking : Staking.Store) (d : Store Denom)

def checkDistributionProposalValid : Bool :=
  chain.higherThanVenus2 header.height && d.initExistedValidatorFlag

def incrementReferenceCount (val : Address) (period : Nat) : Except Failure (Store Denom) := do
  let historical ← mustGet (d.historicalRewards.get (toLex (val, period)))
  require (historical.referenceCount ≤ 2) (.panic "reference count should never exceed 2")
  let counted := { historical with referenceCount := historical.referenceCount + 1 }
  return { d with historicalRewards := d.historicalRewards.set (toLex (val, period)) counted }

def decrementReferenceCount (val : Address) (period : Nat) : Except Failure (Store Denom) := do
  let historical ← mustGet (d.historicalRewards.get (toLex (val, period)))
  require (historical.referenceCount ≠ 0) (.panic "cannot set negative reference count")
  let counted := { historical with referenceCount := historical.referenceCount - 1 }
  if counted.referenceCount = 0 then
    return { d with historicalRewards := d.historicalRewards.delete (toLex (val, period)) }
  else
    return { d with historicalRewards := d.historicalRewards.set (toLex (val, period)) counted }

def initializeValidatorDistrProposal (val : Address) : Store Denom :=
  { d with
    historicalRewards := d.historicalRewards.set (toLex (val, 0)) ⟨0, 1⟩
    currentRewards := d.currentRewards.set val ⟨0, 1⟩
    accumulatedCommission := d.accumulatedCommission.set val 0
    outstandingRewards := d.outstandingRewards.set val 0 }

def initializeValidator (val : Address) : Store Denom :=
  if checkDistributionProposalValid chain header d then initializeValidatorDistrProposal d val
  else { d with accumulatedCommission := d.accumulatedCommission.set val 0 }

/-- The rewards of the current period per share; those of a validator without shares go to the
community pool. -/
def currentRatio (val : Validator) (rewards : Coins Denom) :
    Except Failure (Store Denom × Coins Denom) := do
  if val.delegatorShares = 0 then
    let outstanding ← mustGet (d.outstandingRewards.get val.operatorAddress)
    let left ← orPanic (outstanding.sub rewards) "negative coin amount"
    return ({ d with
      communityPool := d.communityPool + rewards
      outstandingRewards := d.outstandingRewards.set val.operatorAddress left }, 0)
  else
    let ratio ← orPanic (rewards.quoDecTruncate val.delegatorShares) "invalid zero decimal"
    return (d, ratio)

/-- End the current period of a validator and return its number. -/
def incrementValidatorPeriod (val : Validator) : Except Failure (Store Denom × Nat) := do
  if !checkDistributionProposalValid chain header d then
    return (d, 0)
  else do
    let addr := val.operatorAddress
    let rewards ← mustGet (d.currentRewards.get addr)
    let (d, current) ← currentRatio d val rewards.rewards
    let historical ← mustGet (d.historicalRewards.get (toLex (addr, rewards.period - 1)))
    let d ← decrementReferenceCount d addr (rewards.period - 1)
    let ended : ValidatorHistoricalRewards Denom := ⟨historical.cumulativeRewardRatio + current, 1⟩
    return ({ d with
      historicalRewards := d.historicalRewards.set (toLex (addr, rewards.period)) ended
      currentRewards := d.currentRewards.set addr ⟨0, rewards.period + 1⟩ }, rewards.period)

/-- Start a delegation from the period that ended last. -/
def initializeDelegation (val del : Address) : Except Failure (Store Denom) := do
  if !checkDistributionProposalValid chain header d then
    return d
  else do
    let current ← mustGet (d.currentRewards.get val)
    let previousPeriod := current.period - 1
    let d ← incrementReferenceCount d val previousPeriod
    let delegation ← orPanic (staking.getDelegator del) "nil delegator"
    let info : DelegatorStartingInfo := ⟨previousPeriod, delegation.shares, header.height⟩
    return { d with startingInfo := d.startingInfo.set (toLex (val, del)) info }

/-- Delegations older than the activation start from period 0. -/
def initExistedDelegationStartInfo (val : Address) (del : Delegator) :
    Except Failure (Store Denom) := do
  if !checkDistributionProposalValid chain header d then
    return d
  else do
    let d ← incrementReferenceCount d val 0
    let info : DelegatorStartingInfo := ⟨0, del.shares, 0⟩
    return { d with startingInfo := d.startingInfo.set (toLex (val, del.delegatorAddress)) info }

def calculateDelegationRewardsBetween (val : Address)
    (startingPeriod endingPeriod : Nat) (stake : Dec) : Except Failure (Coins Denom) := do
  require (startingPeriod ≤ endingPeriod)
    (.panic "startingPeriod cannot be greater than endingPeriod")
  require (0 ≤ stake) (.panic "stake should not be negative")
  let starting ← mustGet (d.historicalRewards.get (toLex (val, startingPeriod)))
  let ending ← mustGet (d.historicalRewards.get (toLex (val, endingPeriod)))
  let difference ←
    orPanic (ending.cumulativeRewardRatio.sub starting.cumulativeRewardRatio) "negative coin amount"
  return difference.mulDecTruncate stake

def calculateDelegationRewards (val del : Address) (endingPeriod : Nat) :
    Except Failure (Coins Denom) := do
  let delegator ← orPanic (staking.getDelegator del) "nil delegator"
  let startingInfo ← mustGet (d.startingInfo.get (toLex (val, del)))
  -- started at this height, no rewards yet
  if startingInfo.height = header.height then
    return 0
  else do
    require (startingInfo.stake ≤ delegator.shares)
      (.panic "calculated final stake for delegator greater than current stake")
    calculateDelegationRewardsBetween d val startingInfo.previousPeriod endingPeriod startingInfo.stake

variable (f : Funds Denom)

/-- Send coins of the module to a user, if there are any. -/
def payCoins (addr : Address) (coins : Coins Denom) : Except Failure (Funds Denom) :=
  if coins = 0 then .ok f else f.sendCoins .distribution (.user addr) coins

/-- Pay a delegator what the precision allows of its rewards; the rest goes to the community pool.
-/
def payRewards (val del : Address) (rewardsRaw : Coins Denom) : Except Failure (Funds Denom) := do
  let outstanding ← mustGet (f.distr.outstandingRewards.get val)
  let rewards := rewardsRaw.intersect outstanding
  let coins := rewards.truncateWithPrec f.distr.rewardTruncatePrecision
  let f ← payCoins f (f.distr.getDelegatorWithdrawAddr del) coins
  let left ← orPanic (outstanding.sub rewards) "negative coin amount"
  return { f with distr := { f.distr with
    outstandingRewards := f.distr.outstandingRewards.set val left
    communityPool := f.distr.communityPool + (rewards - coins) } }

/-- A delegation without starting information is older than the activation. -/
def ensureStartInfo (val del : Address) : Except Failure (Store Denom) :=
  match d.startingInfo.get (toLex (val, del)) with
  | some _ => .ok d
  | none => do
    let delegator ← orPanic (staking.getDelegator del) "nil delegator"
    require (delegator.shares ≠ 0) (.err .errZeroDelegationShares)
    initExistedDelegationStartInfo chain header d val delegator

def withdrawDelegationRewards (val : Validator) (del : Address) : Except Failure (Funds Denom) := do
  require (checkDistributionProposalValid chain header f.distr)
    (.err .errNotSupportWithdrawDelegationRewards)
  let addr := val.operatorAddress
  let d ← ensureStartInfo chain header staking f.distr addr del
  let (d, endingPeriod) ← incrementValidatorPeriod chain header d val
  let rewardsRaw ← calculateDelegationRewards header staking d addr del endingPeriod
  let f ← payRewards { f with distr := d } addr del rewardsRaw
  let startingInfo ← mustGet (f.distr.startingInfo.get (toLex (addr, del)))
  let d ← decrementReferenceCount f.distr addr startingInfo.previousPeriod
  return { f with distr := { d with startingInfo := d.startingInfo.delete (toLex (addr, del)) } }

def afterValidatorCreated (val : Address) : Funds Denom :=
  { f with distr := initializeValidator chain header f.distr val }

/-- Pay the whole coins of a commission; the rest of it goes to the community pool. -/
def forceWithdrawCommission (val : Address) (commission : Coins Denom) :
    Except Failure (Funds Denom) :=
  let coins := commission.truncateWithPrec 0
  let f := { f with distr := { f.distr with
    communityPool := f.distr.communityPool + (commission - coins) } }
  panicOnError (payCoins f (f.distr.getDelegatorWithdrawAddr val) coins)
    "send of the commission failed"

def afterValidatorRemoved (val : Address) : Except Failure (Funds Denom) := do
  let commission := f.distr.getValidatorAccumulatedCommission val
  if checkDistributionProposalValid chain header f.distr then
    let outstanding ← mustGet (f.distr.outstandingRewards.get val)
    let left ← orPanic (outstanding.sub commission) "negative coin amount"
    let f ← forceWithdrawCommission f val commission
    let historical := f.distr.historicalRewards.pairs.filter (fun entry => (ofLex entry.1).1 = val)
    return { f with distr := { f.distr with
      communityPool := f.distr.communityPool + left
      outstandingRewards := f.distr.outstandingRewards.delete val
      accumulatedCommission := f.distr.accumulatedCommission.delete val
      historicalRewards :=
        historical.foldl (fun table entry => table.delete entry.1) f.distr.historicalRewards
      currentRewards := f.distr.currentRewards.delete val } }
  else
    let f ← forceWithdrawCommission f val commission
    return { f with distr := { f.distr with
      accumulatedCommission := f.distr.accumulatedCommission.delete val } }

def forValidators {σ : Type} (staking : Staking.Store) (hook : σ → Validator → Except Failure σ)
    (s : σ) (vals : List Address) : Except Failure σ :=
  vals.foldlM (fun s addr => do
    let val ← orPanic (staking.getValidator addr) "nil validator"
    hook s val) s

def beforeDelegationCreated (vals : List Address) : Except Failure (Funds Denom) :=
  if !checkDistributionProposalValid chain header f.distr then .ok f
  else forValidators staking (fun f val => do
    let (d, _) ← incrementValidatorPeriod chain header f.distr val
    return { f with distr := d }) f vals

/-- An error of a withdrawal panics here. -/
def beforeDelegationSharesModified (del : Address) (vals : List Address) :
    Except Failure (Funds Denom) :=
  if !checkDistributionProposalValid chain header f.distr then .ok f
  else forValidators staking (fun f val =>
    panicOnError (withdrawDelegationRewards chain header staking f val del)
      "withdrawDelegationRewards failed") f vals

def afterDelegationModified (del : Address) (vals : List Address) : Except Failure (Funds Denom) :=
  if !checkDistributionProposalValid chain header f.distr then .ok f
  else vals.foldlM (fun f val => do
    let d ← initializeDelegation chain header staking f.distr val del
    return { f with distr := d }) f

end Exchain.Distribution
