import Exchain.Staking.Validators
import Exchain.Distribution.Allocation

namespace Exchain.Staking

open Distribution (Chain Header Funds orPanic mustGet DistributionType checkDistributionProposalValid)

variable {Denom : Type} [Fintype Denom] [DecidableEq Denom]

inductive Msg (Denom : Type) where
  | createValidator (delegatorAddress validatorAddress : Address) (cons : ConsAddress)
      (minSelfDelegation : Denom × Dec)
  | editValidatorCommissionRate (validatorAddress : Address) (commissionRate : Dec)
  | deposit (delegatorAddress : Address) (amount : Denom × Dec)
  | withdraw (delegatorAddress : Address) (amount : Denom × Dec)
  | addShares (delAddr : Address) (valAddrs : List Address)
  | bindProxy (delAddr proxyAddress : Address)
  | unbindProxy (delAddr : Address)
  | regProxy (proxyAddress : Address) (reg : Bool)
  | destroyValidator (delAddr : Address)
  | unjail (validatorAddr : Address)
  | setWithdrawAddress (delegatorAddress withdrawAddress : Address)
  | withdrawValidatorCommission (validatorAddress : Address)
  | withdrawDelegatorReward (delegatorAddress validatorAddress : Address)
  | withdrawDelegatorAllRewards (delegatorAddress : Address)

/-- The check of a message on its own. -/
def Msg.validateBasic : Msg Denom → Option Err
  | .createValidator delegatorAddress validatorAddress _ minSelfDelegation =>
    if validatorAddress ≠ delegatorAddress then some .errBadValidatorAddr
    else if minSelfDelegation.2 ≤ 0 then some .errMinSelfDelegationInvalid
    else none
  | .editValidatorCommissionRate _ commissionRate =>
    if Dec.one < commissionRate ∨ commissionRate < 0 then some .errInvalidCommissionRate else none
  | .deposit _ amount => if amount.2 ≤ 0 then some .errBadDelegationAmount else none
  | .withdraw _ amount => if amount.2 < 0 then some .errBadDelegationAmount else none
  | .addShares _ valAddrs =>
    if valAddrs = [] then some .errBadValidatorAddr
    else if ¬ valAddrs.Nodup then some .errTargetValsDuplicate
    else none
  | .bindProxy delAddr proxyAddress =>
    if delAddr = proxyAddress then some .errDelegatorEqualToProxyAddr else none
  | _ => none

def newValidator (addr : Address) (cons : ConsAddress) (minSelfDelegation : Dec) : Validator where
  operatorAddress := addr
  consAddress := cons
  jailed := false
  status := .unbonded
  tokens := 0
  delegatorShares := 0
  unbondingHeight := 0
  unbondingCompletionTime := 0
  commission := ⟨Dec.one, Dec.one, 0⟩
  minSelfDelegation := minSelfDelegation

variable (chain : Chain Denom) (ctx : Context Denom)

/-- The stake of a new validator is the parameter, whatever the message says. -/
def handleMsgCreateValidator (del addr : Address)
    (cons : ConsAddress) (denom : Denom) : Except Failure (Context Denom) := do
  require (ctx.staking.getValidator addr = none) (.err .errValidatorOwnerExists)
  require (ctx.staking.getValidatorByConsAddr cons = none) (.err .errValidatorPubKeyExists)
  require (denom = chain.bondDenom) (.err .errBadDenom)
  let minSelfDelegation := ctx.staking.params.minSelfDelegation
  let v := newValidator addr cons minSelfDelegation
  let staking := ((ctx.staking.setValidator v).setValidatorByConsAddr v).setNewValidatorByPowerIndex v
  let funds ← ctx.funds.sendCoins (.user del) .bondedPool (bondCoins chain minSelfDelegation)
  let staking := staking.moveShares v (v.delegatorShares + Dec.one)
  return { ctx with
    staking
    funds := Distribution.afterValidatorCreated chain ctx.header funds addr
    slashing := ctx.slashing.afterValidatorCreated cons }

/-- Nanoseconds of a day. -/
def rateUpdateInterval : Time := 24 * 60 * 60 * 1000000000

def Commission.validateNewRate (c : Commission) (newRate : Dec) (blockTime : Time) :
    Except Failure Unit := do
  require (rateUpdateInterval ≤ blockTime - c.updateTime) (.err .errCommissionUpdateTime)
  require (0 ≤ newRate) (.err .errCommissionNegative)
  require (newRate ≤ c.maxRate) (.err .errCommissionGTMaxRate)

def handleMsgEditValidatorCommissionRate (addr : Address) (rate : Dec) :
    Except Failure (Context Denom) := do
  let v ← orErr (ctx.staking.getValidator addr) .errNoValidatorFound
  v.commission.validateNewRate rate ctx.header.time
  let commission := { v.commission with rate := rate, updateTime := ctx.header.time }
  return { ctx with staking := ctx.staking.setValidator { v with commission } }

def handleMsgDeposit (del : Address) (denom : Denom)
    (amount : Dec) : Except Failure (Context Denom) := do
  require (denom = chain.bondDenom) (.err .errBadDenom)
  delegate chain ctx del amount

def handleMsgWithdraw (del : Address) (denom : Denom)
    (amount : Dec) : Except Failure (Context Denom) := do
  require (denom = chain.bondDenom) (.err .errBadDenom)
  let (ctx, completionTime) ← withdraw chain ctx del amount
  return ctx.emit (.unbond ctx.header.time del amount completionTime)

def validateSharesAdding (vals : List Validator) : Except Failure Unit := do
  require (vals ≠ []) (.err .errEmptyValidators)
  require (∀ v ∈ vals, v.minSelfDelegation ≠ 0) (.err .errAddSharesToDismission)

def handleMsgAddShares (del : Address)
    (valAddrs : List Address) : Except Failure (Context Denom) := do
  require (valAddrs ≠ []) (.err .errEmptyValidators)
  require (valAddrs.length ≤ ctx.staking.params.maxValsToAddShares) (.err .errExceedValidatorAddrs)
  let delegator ← orErr (ctx.staking.getDelegator del) .errNoDelegationToAddShares
  require (delegator.tokens ≠ 0) (.err .errNoDelegationToAddShares)
  require (delegator.proxyAddress = none) (.err .errAddSharesDuringProxy)
  let (lastVals, lastShares) := ctx.staking.getLastValsAddedSharesExisted del
  let ctx ← withdrawLastShares chain ctx del lastVals lastShares
  let vals ← ctx.staking.getValidatorsToAddShares valAddrs
  validateSharesAdding vals
  let totalTokens := delegator.tokens + delegator.totalDelegatedTokens
  let addrs := vals.map (·.operatorAddress)
  let funds ← Distribution.beforeDelegationCreated chain ctx.header ctx.staking ctx.funds addrs
  let (ctx, shares) ← addSharesToValidators chain { ctx with funds } del vals totalTokens
  let delegator := { delegator with validatorAddresses := addrs, shares := shares }
  let staking := ctx.staking.setDelegator delegator
  let funds ← Distribution.afterDelegationModified chain ctx.header staking ctx.funds del addrs
  return { ctx with staking, funds }

/-- The answer of a handler that hides the error of a nested update; a panic goes through. -/
def hideError {α : Type} (result : Except Failure α) (error : Err) : Except Failure α :=
  match result with
  | .error (.err _) => .error (.err error)
  | _ => result

theorem hideError_eq_ok {α : Type} {result : Except Failure α} {error : Err} {a : α} :
    hideError result error = .ok a ↔ result = .ok a := by
  rcases result with (_ | _) | _ <;> simp [hideError]

def unbindProxy (del : Address) : Except Failure (Context Denom) := do
  let delegator ← orErr (ctx.staking.getDelegator del) .errNoDelegationToAddShares
  let proxyAddress ← orErr delegator.proxyAddress .errProxyNotFound
  let proxyDelegator ← orErr (ctx.staking.getDelegator proxyAddress) .errProxyNotFound
  let ctx ← hideError (updateProxy chain ctx delegator (-delegator.tokens)) .errInvalidDelegation
  let staking := (ctx.staking.setDelegator { delegator with proxyAddress := none }).setProxyBinding
    proxyDelegator.delegatorAddress delegator.delegatorAddress true
  return { ctx with staking }

/-- Unbind a delegator from the proxy it had. -/
def unbindIfBound (delegator : Delegator) : Except Failure (Context Denom) :=
  if delegator.hasProxy then unbindProxy chain ctx delegator.delegatorAddress else .ok ctx

def handleMsgBindProxy (del proxyAddress : Address) : Except Failure (Context Denom) := do
  let delegator ← orErr (ctx.staking.getDelegator del) .errNoDelegationToAddShares
  require (delegator.tokens ≠ 0) (.err .errNoDelegationToAddShares)
  require (delegator.shares = 0) (.err .errAlreadyAddedShares)
  let proxyDelegator ← orErr (ctx.staking.getDelegator proxyAddress) .errProxyNotFound
  require (proxyDelegator.tokens ≠ 0) (.err .errProxyNotFound)
  require proxyDelegator.isProxy (.err .errProxyNotFound)
  require (delegator.isProxy = false) (.err .errDoubleProxy)
  -- the same proxy again only updates its shares
  if delegator.proxyAddress = some proxyDelegator.delegatorAddress then
    hideError (updateShares chain ctx proxyDelegator.delegatorAddress
      (proxyDelegator.totalDelegatedTokens + proxyDelegator.tokens)) .errInvalidDelegation
  else do
    let ctx ← unbindIfBound chain ctx delegator
    -- both records were read before the unbinding
    let bound := { delegator with proxyAddress := some proxyAddress }
    let total := proxyDelegator.totalDelegatedTokens + delegator.tokens
    let proxyDelegator := { proxyDelegator with totalDelegatedTokens := total }
    let staking := ((ctx.staking.setDelegator bound).setDelegator proxyDelegator).setProxyBinding
      proxyDelegator.delegatorAddress bound.delegatorAddress false
    hideError (updateShares chain { ctx with staking } proxyDelegator.delegatorAddress
      (total + proxyDelegator.tokens)) .errInvalidDelegation

def regProxy (proxyAddr : Address) : Except Failure (Context Denom) := do
  let proxy ← orErr (ctx.staking.getDelegator proxyAddr) .errNoDelegationToAddShares
  require (proxy.isProxy = false) (.err .errProxyAlreadyExist)
  require (proxy.proxyAddress = none) (.err .errAlreadyBound)
  let proxy := { proxy with isProxy := true }
  hideError (updateShares chain { ctx with staking := ctx.staking.setDelegator proxy }
    proxy.delegatorAddress proxy.tokens) .errInvalidDelegation

/-- Clear one binding, of a proxy and a delegator. -/
def Store.clearBinding (s : Store) (key : Address × Address) : Store :=
  let s := match s.getDelegator key.2 with
    | some delegator => s.setDelegator { delegator with proxyAddress := none }
    | none => s
  s.setProxyBinding key.1 key.2 true

def Store.clearProxy (s : Store) (proxyAddr : Address) : Store :=
  let bound := (s.proxyBindings.keys.map ofLex).filter (fun key => key.1 = proxyAddr)
  bound.foldl clearBinding s

def unregProxy (proxyAddr : Address) : Except Failure (Context Denom) := do
  let proxy ← orErr (ctx.staking.getDelegator proxyAddr) .errProxyNotFound
  require proxy.isProxy (.err .errProxyNotFound)
  let proxy := { proxy with isProxy := false, totalDelegatedTokens := 0 }
  let staking := (ctx.staking.clearProxy proxy.delegatorAddress).setDelegator proxy
  hideError (updateShares chain { ctx with staking } proxy.delegatorAddress proxy.tokens)
    .errInvalidDelegation

def handleMsgDestroyValidator (del : Address) : Except Failure (Context Denom) := do
  let v ← orErr (ctx.staking.getValidator del) .errNoValidatorFound
  let (ctx, completionTime) ← withdrawMinSelfDelegation chain ctx del v
  return ctx.emit (.unbond ctx.header.time del v.minSelfDelegation completionTime)

def handleMsgUnjail (addr : Address) : Except Failure (Context Denom) := do
  let v ← orErr (ctx.staking.getValidator addr) .errNoValidatorForAddress
  require (v.minSelfDelegation ≠ 0) (.err .errMissingSelfDelegation)
  require v.jailed (.err .errValidatorNotJailed)
  let info ← orErr (ctx.slashing.signingInfo.get v.consAddress) .errNoValidatorForAddress
  require (info.validatorStatus ≠ .destroying) (.err .errValidatorDestroying)
  require (info.tombstoned = false) (.err .errValidatorJailed)
  require (info.jailedUntil ≤ ctx.header.time) (.err .errValidatorJailed)
  unjail ctx v.consAddress

def handleMsgModifyWithdrawAddress (del withdrawAddr : Address) : Except Failure (Context Denom) :=
  if !ctx.funds.distr.withdrawAddrEnabled then .error (.err .errSetWithdrawAddrDisabled)
  else
    let addrs := ctx.funds.distr.delegatorWithdrawAddr.set del withdrawAddr
    .ok { ctx with funds := { ctx.funds with
      distr := { ctx.funds.distr with delegatorWithdrawAddr := addrs } } }

/-- After the activation a commission is part of the outstanding rewards. -/
def takeOutstanding (header : Header) (d : Distribution.Store Denom)
    (addr : Address) (commission : Coins Denom) : Except Failure (Distribution.Store Denom) :=
  if checkDistributionProposalValid chain header d then do
    let outstanding ← mustGet (d.outstandingRewards.get addr)
    let left ← orPanic (outstanding.sub commission) "negative coin amount"
    return { d with outstandingRewards := d.outstandingRewards.set addr left }
  else .ok d

def handleMsgWithdrawValidatorCommission (addr : Address) : Except Failure (Context Denom) := do
  let accumulated := ctx.funds.distr.getValidatorAccumulatedCommission addr
  require (accumulated ≠ 0) (.err .errNoValidatorCommission)
  let commission := accumulated.truncateWithPrec 0
  let d := { ctx.funds.distr with
    accumulatedCommission := ctx.funds.distr.accumulatedCommission.set addr (accumulated - commission) }
  let d ← takeOutstanding chain ctx.header d addr commission
  let funds ← hideError (Distribution.payCoins { ctx.funds with distr := d }
    (d.getDelegatorWithdrawAddr addr) commission) (.send "send coins from module to account failed")
  return { ctx with funds }

/-- Withdraw the rewards of one delegation and start it again. -/
def withdrawAndRestart (del : Address) (v : Validator) : Except Failure (Context Denom) := do
  let funds ←
    Distribution.withdrawDelegationRewards chain ctx.header ctx.staking ctx.funds v del
  let d ← Distribution.initializeDelegation chain ctx.header ctx.staking funds.distr
    v.operatorAddress del
  return { ctx with funds := { funds with distr := d } }

def handleMsgWithdrawDelegatorReward (del addr : Address) : Except Failure (Context Denom) := do
  let v ← orErr (ctx.staking.getValidator addr) .errEmptyValidatorDistInfo
  let delegator ← orErr (ctx.staking.getDelegator del) .errEmptyDelegationDistInfo
  require (addr ∈ delegator.validatorAddresses) (.err .errEmptyDelegationVoteValidator)
  withdrawAndRestart chain ctx del v

def handleMsgWithdrawDelegatorAllRewards (del : Address) : Except Failure (Context Denom) := do
  let delegator ← orErr (ctx.staking.getDelegator del) .errEmptyDelegationDistInfo
  require (delegator.validatorAddresses ≠ []) (.err .errEmptyDelegationVoteValidator)
  delegator.validatorAddresses.foldlM (fun ctx addr => do
    let v ← orErr (ctx.staking.getValidator addr) .errEmptyValidatorDistInfo
    withdrawAndRestart chain ctx del v) ctx

/-- The error of a message while its module's operations are disabled; a validator can always leave
the jail. -/
def Msg.disabledError : Msg Denom → Option Err
  | .unjail _ => none
  | .setWithdrawAddress _ _ => some .errDisabledWithdrawRewards
  | .withdrawValidatorCommission _ => some .errDisabledWithdrawRewards
  | .withdrawDelegatorReward _ _ => some .errDisabledWithdrawRewards
  | .withdrawDelegatorAllRewards _ => some .errDisabledWithdrawRewards
  | _ => some .errDisabledOperate

def dispatch : Msg Denom → Except Failure (Context Denom)
  | .createValidator del addr cons amount => handleMsgCreateValidator chain ctx del addr cons amount.1
  | .editValidatorCommissionRate addr rate =>
    if chain.higherThanVenus2 ctx.header.height then
      handleMsgEditValidatorCommissionRate ctx addr rate
    else .error (.err .errUnknownRequest)
  | .deposit del amount => handleMsgDeposit chain ctx del amount.1 amount.2
  | .withdraw del amount => handleMsgWithdraw chain ctx del amount.1 amount.2
  | .addShares del vals => handleMsgAddShares chain ctx del vals
  | .bindProxy del proxyAddress => handleMsgBindProxy chain ctx del proxyAddress
  | .unbindProxy del => unbindProxy chain ctx del
  | .regProxy proxyAddr reg => if reg then regProxy chain ctx proxyAddr else unregProxy chain ctx proxyAddr
  | .destroyValidator del => handleMsgDestroyValidator chain ctx del
  | .unjail addr => handleMsgUnjail ctx addr
  | .setWithdrawAddress del withdrawAddr => handleMsgModifyWithdrawAddress ctx del withdrawAddr
  | .withdrawValidatorCommission addr => handleMsgWithdrawValidatorCommission chain ctx addr
  | .withdrawDelegatorReward del addr =>
    if checkDistributionProposalValid chain ctx.header ctx.funds.distr then
      handleMsgWithdrawDelegatorReward chain ctx del addr
    else .error (.err .errUnknownDistributionMsgType)
  | .withdrawDelegatorAllRewards del =>
    if checkDistributionProposalValid chain ctx.header ctx.funds.distr then
      handleMsgWithdrawDelegatorAllRewards chain ctx del
    else .error (.err .errUnknownDistributionMsgType)

/-- The staking and distribution messages can be disabled after the first upgrade. -/
def operationsEnabled : Bool :=
  !chain.higherThanVenus2 ctx.header.height || ctx.funds.distr.withdrawRewardEnabled

def handle (msg : Msg Denom) : Except Failure (Context Denom) :=
  match msg.validateBasic with
  | some error => .error (.err error)
  | none =>
    match msg.disabledError with
    | none => dispatch chain ctx msg
    | some error =>
      if operationsEnabled chain ctx then dispatch chain ctx msg else .error (.err error)

/-- A message that fails leaves everything as it was. -/
def deliver (msg : Msg Denom) : Context Denom :=
  match handle chain ctx msg with
  | .ok ctx' => ctx'
  | .error _ => ctx

theorem handle_ok {chain : Chain Denom} {ctx ctx' : Context Denom} {msg : Msg Denom}
    (done : handle chain ctx msg = .ok ctx') :
    msg.validateBasic = none ∧ dispatch chain ctx msg = .ok ctx' := by
  unfold handle at done
  split at done
  · cases done
  rename_i valid
  refine ⟨valid, ?_⟩
  split at done
  · exact done
  split at done
  · exact done
  · cases done

/-- What a message that was delivered did: nothing, or what its handler does. -/
theorem deliver_cases (msg : Msg Denom) : deliver chain ctx msg = ctx ∨
      msg.validateBasic = none ∧ dispatch chain ctx msg = .ok (deliver chain ctx msg) := by
  unfold deliver
  cases done : handle chain ctx msg with
  | ok ctx' => exact .inr (handle_ok done)
  | error => exact .inl rfl

end Exchain.Staking
