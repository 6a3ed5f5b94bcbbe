import Exchain.Staking.Context

namespace Exchain.Staking

open Distribution (Chain Header Funds orPanic)

variable {Denom : Type} [Fintype Denom]

/-- Write a validator with new shares and move its entry of the power index. -/
def Store.moveShares (s : Store) (v : Validator) (shares : Dec) : Store :=
  let moved := { v with delegatorShares := shares }
  ((s.deleteValidatorByPowerIndex v).setValidator moved).setValidatorByPowerIndex moved

def Store.dropValidator (s : Store) (v : Validator) (addr : Address) : Store :=
  { s with
    validators := s.validators.delete addr
    validatorsByConsAddr := s.validatorsByConsAddr.delete v.consAddress
    validatorsByPower := s.validatorsByPower.delete v.powerKey }

section

variable (chain : Chain Denom) (ctx : Context Denom)

def removeValidator (addr : Address) : Except Failure (Context Denom) :=
  match ctx.staking.getValidator addr with
  | none => .ok ctx
  | some v =>
    if !v.isUnbonded then
      .error (.panic "cannot call RemoveValidator on bonded or unbonding validators")
    else if 0 < v.tokens then
      .error (.panic "attempting to remove a validator which still contains tokens")
    else do
      let funds ← Distribution.afterValidatorRemoved chain ctx.header ctx.funds v.operatorAddress
      return { ctx with
        staking := ctx.staking.dropValidator v addr
        slashing := ctx.slashing.afterValidatorRemoved v.consAddress
        funds }

def updateValidatorShares (del : Address) (lastShares shares : Dec) (s : Store) (v : Validator) :
    Except Failure Store :=
  if v.minSelfDelegation = 0 then .error (.err .errAddSharesToDismission)
  else .ok ((s.setShares del v.operatorAddress shares).moveShares v
    (v.delegatorShares - lastShares + shares))

/-- Withdraw the shares of a delegator and add new ones, on the same validators. -/
def updateShares (del : Address) (tokens : Dec) : Except Failure (Context Denom) := do
  let (vals, lastShares) := ctx.staking.getLastValsAddedSharesExisted del
  -- a delegator that never added shares passes
  if vals.isEmpty then
    return ctx
  else do
    let addrs := vals.map (·.operatorAddress)
    let funds ←
      Distribution.beforeDelegationSharesModified chain ctx.header ctx.staking ctx.funds del addrs
    let shares ← calculateWeight chain ctx.header tokens
    let delegator ← orErr (ctx.staking.getDelegator del) .errNoDelegatorExisted
    let staking ← vals.foldlM (updateValidatorShares del lastShares shares) ctx.staking
    let staking := staking.setDelegator { delegator with shares }
    let funds ← Distribution.afterDelegationModified chain ctx.header staking funds
      delegator.delegatorAddress addrs
    return { ctx with staking, funds }

def addShares (del : Address) (shares : Dec) (s : Store) (v : Validator) : Store :=
  (s.setShares del v.operatorAddress shares).moveShares v (v.delegatorShares + shares)

def addSharesToValidators (del : Address)
    (vals : List Validator) (tokens : Dec) : Except Failure (Context Denom × Dec) := do
  let shares ← calculateWeight chain ctx.header tokens
  return ({ ctx with staking := vals.foldl (addShares del shares) ctx.staking }, shares)

def withdrawShares (del : Address) (shares : Dec) (ctx : Context Denom)
    (v : Validator) : Except Failure (Context Denom) :=
  let remaining := v.delegatorShares - shares
  let staking := ctx.staking.deleteShares v.operatorAddress del
  if v.isUnbonded && v.minSelfDelegation = 0 && remaining = 0 then
    removeValidator chain
      { ctx with staking := staking.deleteValidatorByPowerIndex v } v.operatorAddress
  else
    .ok { ctx with staking := staking.moveShares v remaining }

def withdrawLastShares (del : Address)
    (lastVals : List Validator) (lastShares : Dec) : Except Failure (Context Denom) :=
  if lastVals.isEmpty then .ok ctx
  else do
    let funds ← Distribution.beforeDelegationSharesModified chain ctx.header ctx.staking ctx.funds del
      (lastVals.map (·.operatorAddress))
    lastVals.foldlM (withdrawShares chain del lastShares) { ctx with funds }

/-- Change the tokens a proxy holds for others; they may fall. -/
def updateProxy (delegator : Delegator) (tokens : Dec) : Except Failure (Context Denom) :=
  match delegator.proxyAddress with
  | none => .ok ctx
  | some proxyAddress => do
    let proxy ← orErr (ctx.staking.getDelegator proxyAddress) .errInvalidAddress
    let total := proxy.totalDelegatedTokens + tokens
    require (0 ≤ total) (.err .errInvalidProxyUpdating)
    let proxy := { proxy with totalDelegatedTokens := total }
    updateShares chain { ctx with staking := ctx.staking.setDelegator proxy }
      proxy.delegatorAddress (total + proxy.tokens)

/-- The tokens the shares of a delegator come from. -/
def Delegator.finalTokens (d : Delegator) : Dec :=
  if d.isProxy then d.tokens + d.totalDelegatedTokens else d.tokens

end

variable [DecidableEq Denom]

variable (chain : Chain Denom) (ctx : Context Denom)

def bondCoins (amount : Dec) : Coins Denom := Coins.single chain.bondDenom amount

def delegate (del : Address) (quantity : Dec) : Except Failure (Context Denom) := do
  require (ctx.staking.params.minDelegation ≤ quantity) (.err .errInsufficientQuantity)
  let funds ← ctx.funds.sendCoins (.user del) .bondedPool (bondCoins chain quantity)
  let delegator := (ctx.staking.getDelegator del).getD (newDelegator del)
  let delegator := { delegator with tokens := delegator.tokens + quantity }
  let ctx := { ctx with funds, staking := ctx.staking.setDelegator delegator }
  if delegator.hasProxy then
    updateProxy chain ctx delegator quantity
  else
    updateShares chain ctx delegator.delegatorAddress delegator.finalTokens

/-- A failure to move the coins panics. -/
def bondedTokensToNotBonded (amount : Dec) : Except Failure (Context Denom) := do
  let funds ← panicOnError
    (ctx.funds.sendCoins .bondedPool .notBondedPool (bondCoins chain amount))
    "send to the not bonded pool failed"
  return { ctx with funds }

def Store.unbind (s : Store) (proxyAddress : Option Address) (del : Address) : Store :=
  match proxyAddress with
  | some proxy => s.setProxyBinding proxy del true
  | none => s

/-- Take the withdrawn tokens from the delegator: without tokens it is deleted and its shares
withdrawn. -/
def settleWithdrawal (delegator : Delegator)
    (del : Address) (leftTokens : Dec) : Except Failure (Context Denom) :=
  if leftTokens = 0 then do
    let (lastVals, lastShares) := ctx.staking.getLastValsAddedSharesExisted del
    let ctx ← withdrawLastShares chain ctx del lastVals lastShares
    return { ctx with staking := (ctx.staking.unbind delegator.proxyAddress del).deleteDelegator del }
  else do
    let delegator := { delegator with tokens := leftTokens }
    let ctx := { ctx with staking := ctx.staking.setDelegator delegator }
    if delegator.hasProxy then
      return ctx
    else
      updateShares chain ctx delegator.delegatorAddress delegator.finalTokens

/-- Add the quantity to the undelegation of the account, which then completes at the new time. -/
def Store.addUndelegation (s : Store) (del : Address) (quantity : Dec) (completionTime : Time) :
    Store :=
  match s.getUndelegating del with
  | none => (s.setUndelegating ⟨del, quantity, completionTime⟩).setAddrByTimeKeyWithNilValue
      completionTime del
  | some undelegation =>
    let merged := { undelegation with
      quantity := undelegation.quantity + quantity, completionTime := completionTime }
    ((s.deleteAddrByTimeKey undelegation.completionTime del).setUndelegating
      merged).setAddrByTimeKeyWithNilValue completionTime del

def withdraw (del : Address) (quantity : Dec) : Except Failure (Context Denom × Time) := do
  let delegator ← orErr (ctx.staking.getDelegator del) .errNoDelegationToAddShares
  require (ctx.staking.params.minDelegation ≤ quantity) (.err .errInsufficientQuantity)
  require (quantity ≤ delegator.tokens) (.err .errInsufficientDelegation)
  let leftTokens := delegator.tokens - quantity
  -- a proxy has to unregister before it withdraws all its tokens
  require (delegator.isProxy → leftTokens ≠ 0) (.err .errInvalidProxyWithdrawTotal)
  let ctx ← bondedTokensToNotBonded chain ctx quantity
  let ctx ← updateProxy chain ctx delegator (-quantity)
  let ctx ← settleWithdrawal chain ctx delegator del leftTokens
  let completionTime := ctx.header.time + ctx.staking.params.unbondingTime
  return ({ ctx with staking := ctx.staking.addUndelegation del quantity completionTime },
    completionTime)

def appendAbandonedValidatorAddrs (cons : ConsAddress) : Except Failure (Context Denom) := do
  let v ← ctx.mustGetValidatorByConsAddr cons
  let addrs := ctx.staking.abandonedValidatorAddrs ++ [v.operatorAddress]
  return { ctx with staking := { ctx.staking with abandonedValidatorAddrs := addrs } }

/-- A bonded validator that is destroyed has to be replaced. -/
def abandonIfBonded (v : Validator) : Except Failure (Context Denom) :=
  if v.isBonded then appendAbandonedValidatorAddrs ctx v.consAddress else .ok ctx

/-- The destroyed validator leaves the store or stays without its own share. -/
def dismissValidator (destroyed : Validator)
    (remainShares : Dec) : Except Failure (Context Denom) :=
  if destroyed.isUnbonded && remainShares = 0 then
    removeValidator chain ctx destroyed.operatorAddress
  else do
    let ctx ← abandonIfBonded ctx destroyed
    let staking := (ctx.staking.deleteValidatorByPowerIndex destroyed).setValidator
      { destroyed with delegatorShares := remainShares }
    return { ctx with staking }

/-- Withdraw the own stake of a validator. The undelegation of the account overwrites one that is
under way. -/
def withdrawMinSelfDelegation (del : Address)
    (v : Validator) : Except Failure (Context Denom × Time) := do
  require (v.minSelfDelegation ≠ 0) (.err .errNoMinSelfDelegation)
  let remainShares := v.delegatorShares - Dec.one
  require (0 ≤ remainShares) (.err .errMoreMinSelfDelegation)
  let ctx ← bondedTokensToNotBonded chain ctx v.minSelfDelegation
  let completionTime := ctx.header.time + ctx.staking.params.unbondingTime
  let info : UndelegationInfo := ⟨del, v.minSelfDelegation, completionTime⟩
  let staking := (ctx.staking.setUndelegating info).setAddrByTimeKeyWithNilValue completionTime del
  let destroyed := { v with minSelfDelegation := 0, jailed := true }
  -- the slashing module looks the validator up, which is still stored as before
  let slashing := match staking.getValidator v.operatorAddress with
    | some stored => ctx.slashing.afterValidatorDestroyed stored.consAddress
    | none => ctx.slashing
  let ctx ← dismissValidator chain { ctx with staking, slashing } destroyed remainShares
  return (ctx, completionTime)

end Exchain.Staking
