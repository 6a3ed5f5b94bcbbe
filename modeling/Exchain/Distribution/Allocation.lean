import Exchain.Distribution.Rewards

/-! Allocation of the collected fees when a block begins: a quarter of what the community tax leaves
equally among the validators that voted, the rest among all by their shares, and what the divisions
leave to the community pool. -/

namespace Exchain.Distribution

open Staking (Address ConsAddress Failure Err Validator panicOnError)

variable {Denom : Type} [Fintype Denom]

def valPortion : Dec := Dec.withPrec 25 2

def votePortion : Dec := Dec.withPrec 75 2

def allocateTokensToValidatorForDistributionProposal (d : Store Denom) (val : Validator)
    (tokens : Coins Denom) : Except Failure (Store Denom) := do
  let rate := if d.distributionType = .onChain then val.commission.rate else Dec.one
  let commission := tokens.mulDec rate
  let shared ← orPanic (tokens.sub commission) "negative coin amount"
  let addr := val.operatorAddress
  let currentRewards ← mustGet (d.currentRewards.get addr)
  let outstanding ← mustGet (d.outstandingRewards.get addr)
  let accumulated := d.getValidatorAccumulatedCommission addr + commission
  let current : ValidatorCurrentRewards Denom :=
    ⟨currentRewards.rewards + shared, currentRewards.period⟩
  return { d with
    accumulatedCommission := d.accumulatedCommission.set addr accumulated
    currentRewards := d.currentRewards.set addr current
    outstandingRewards := d.outstandingRewards.set addr (outstanding + tokens) }

variable (chain : Chain Denom) (header : Header) (staking : Staking.Store)

def allocateTokensToValidator (d : Store Denom)
    (val : Validator) (tokens : Coins Denom) : Except Failure (Store Denom) :=
  if checkDistributionProposalValid chain header d then
    allocateTokensToValidatorForDistributionProposal d val tokens
  else
    let addr := val.operatorAddress
    let commission := d.getValidatorAccumulatedCommission addr + tokens
    .ok { d with accumulatedCommission := d.accumulatedCommission.set addr commission }

/-- Give each validator its reward, and return what remains. -/
def allocateEach (chain : Chain Denom) (header : Header) (reward : Validator → Except Failure (Coins Denom)) :
    Store Denom × Coins Denom → List Validator → Except Failure (Store Denom × Coins Denom)
  | state, [] => .ok state
  | (d, remaining), val :: rest => do
    let share ← reward val
    let d ← allocateTokensToValidator chain header d val share
    let remaining ← orPanic (remaining.sub share) "negative coin amount"
    allocateEach chain header reward (d, remaining) rest

def allocateByEqual (d : Store Denom) (rewards : Coins Denom) (previousVotes : List ConsAddress) :
    Except Failure (Store Denom × Coins Denom) := do
  let validators := (previousVotes.filterMap staking.getValidatorByConsAddr).filter (!·.jailed)
  let powerFraction ← orPanic (Dec.quoTruncate (Dec.ofInt 1) (Dec.ofInt validators.length))
    "division by zero"
  let reward := rewards.mulDecTruncate powerFraction
  allocateEach chain header (fun _ => .ok reward) (d, rewards) validators

def allocateByShares (d : Store Denom) (rewards : Coins Denom) :
    Except Failure (Store Denom × Coins Denom) :=
  let validators := staking.validators.values.filter (!·.jailed)
  let totalVotes := (validators.map (·.delegatorShares)).sum
  allocateEach chain header (fun val => do
    let powerFraction ← orPanic (Dec.quoTruncate val.delegatorShares totalVotes) "division by zero"
    return rewards.mulDecTruncate powerFraction) (d, rewards) validators

/-- Divide the collected fees. The community pool read before the allocations is written back with
what remains. -/
def divideFees (d : Store Denom) (feesCollected : Coins Denom) (previousVotes : List ConsAddress) :
    Except Failure (Store Denom) := do
  let feesToVals := feesCollected.mulDecTruncate (Dec.one - d.communityTax)
  let feeByEqual := feesToVals.mulDecTruncate valPortion
  let feeByVote := feesToVals.mulDecTruncate votePortion
  let feesToCommunity ←
    orPanic (feesCollected.sub (feeByEqual + feeByVote)) "negative coin amount"
  let communityPool := d.communityPool
  let (d, remainByEqual) ← allocateByEqual chain header staking d feeByEqual previousVotes
  let (d, remainByShare) ← allocateByShares chain header staking d feeByVote
  let feesToCommunity := feesToCommunity + (remainByEqual + remainByShare)
  if feesToCommunity = 0 then
    return d
  else
    return { d with communityPool := communityPool + feesToCommunity }

/-- Allocate the fees of the previous block. Its proposer is looked up only for a log entry. -/
def allocateTokens (f : Funds Denom) (totalPreviousPower : Int) (previousVotes : List ConsAddress) :
    Except Failure (Funds Denom) :=
  let feesCollected := f.bank .feeCollector
  if feesCollected = 0 then .ok f
  else do
    let f ← panicOnError (f.sendCoins .feeCollector .distribution feesCollected)
      "send of the collected fees failed"
    if totalPreviousPower = 0 then
      return { f with distr := { f.distr with
        communityPool := f.distr.communityPool + feesCollected } }
    else
      let d ← divideFees chain header staking f.distr feesCollected previousVotes
      return { f with distr := d }

end Exchain.Distribution
