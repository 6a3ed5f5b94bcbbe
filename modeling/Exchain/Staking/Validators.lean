import Exchain.Staking.Shares

namespace Exchain.Staking

open Distribution (Chain Header Funds orPanic)

variable {Denom : Type} [Fintype Denom]

section

variable (ctx : Context Denom)

def jailValidator (v : Validator) : Except Failure (Context Denom) :=
  if v.jailed then .error (.panic "cannot jail already jailed validator")
  else
    let jailed := { v with jailed := true }
    .ok { ctx with staking := (ctx.staking.setValidator jailed).deleteValidatorByPowerIndex jailed }

def unjailValidator (v : Validator) : Except Failure (Context Denom) :=
  if !v.jailed then .error (.panic "cannot unjail already unjailed validator")
  else
    let freed := { v with jailed := false }
    .ok { ctx with staking := (ctx.staking.setValidator freed).setValidatorByPowerIndex freed }

def jail (cons : ConsAddress) : Except Failure (Context Denom) := do
  jailValidator ctx (← ctx.mustGetValidatorByConsAddr cons)

def unjail (cons : ConsAddress) : Except Failure (Context Denom) := do
  unjailValidator ctx (← ctx.mustGetValidatorByConsAddr cons)

def bondValidator (v : Validator) : Context Denom × Validator :=
  let bonded := { v with status := .bonded }
  let staking := ((ctx.staking.deleteValidatorByPowerIndex v).setValidator
    bonded).setValidatorByPowerIndex bonded
  ({ ctx with
    staking := staking.deleteValidatorQueue bonded
    slashing := ctx.slashing.afterValidatorBonded bonded.consAddress }, bonded)

def beginUnbondingValidator (v : Validator) : Except Failure (Context Denom × Validator) :=
  if !v.isBonded then .error (.panic "should not already be unbonded or unbonding")
  else
    let unbonding := { v with
      status := .unbonding
      unbondingCompletionTime := ctx.header.time + ctx.staking.params.unbondingTime
      unbondingHeight := ctx.header.height }
    let staking := ((ctx.staking.deleteValidatorByPowerIndex v).setValidator
      unbonding).setValidatorByPowerIndex unbonding
    .ok ({ ctx with staking := staking.insertValidatorQueue unbonding }, unbonding)

def completeUnbondingValidator (v : Validator) : Context Denom × Validator :=
  let unbonded := { v with status := .unbonded }
  ({ ctx with staking := ctx.staking.setValidator unbonded }, unbonded)

end

/-- An update of the voting power of a validator; power zero removes it. -/
structure ValidatorUpdate where
  consAddress : ConsAddress
  power : Int
  deriving DecidableEq, Repr

def Validator.abciValidatorUpdateByShares (v : Validator) : ValidatorUpdate :=
  ⟨v.consAddress, v.consensusPowerByShares⟩

def Validator.abciValidatorUpdateZero (v : Validator) : ValidatorUpdate := ⟨v.consAddress, 0⟩

/-- The addresses of the power index, the highest power first. -/
def Store.validatorsByPowerDescending (s : Store) : List Address := s.validatorsByPower.values.reverse

structure Election (Denom : Type) where
  ctx : Context Denom
  last : SortedMap Address Int
  updates : List ValidatorUpdate
  count : Nat
  totalPower : Int

def elect (e : Election Denom) (addr : Address) (v : Validator) : Election Denom :=
  let (ctx, v) := if v.isBonded then (e.ctx, v) else bondValidator e.ctx v
  let newPower := v.consensusPowerByShares
  let changed := e.last.get addr ≠ some newPower
  { ctx := if changed then
      { ctx with staking := ctx.staking.setLastValidatorPower addr newPower } else ctx
    last := e.last.delete addr
    updates := if changed then e.updates ++ [v.abciValidatorUpdateByShares] else e.updates
    count := e.count + 1
    totalPower := e.totalPower + newPower }

def electFrom (maxValidators : Nat) :
    Election Denom → List Address → Except Failure (Election Denom)
  | e, [] => .ok e
  | e, addr :: rest =>
    if maxValidators ≤ e.count then .ok e
    else do
      let v ← e.ctx.mustGetValidator addr
      require (v.jailed = false)
        (.panic "should never retrieve a jailed validator from the power store")
      -- after a validator without power there is none to elect
      if v.potentialConsensusPowerByShares = 0 then
        return e
      else
        electFrom maxValidators (elect e addr v) rest

/-- A validator that is no longer bonded. -/
def discharge (state : Context Denom × List ValidatorUpdate) (addr : Address) :
    Except Failure (Context Denom × List ValidatorUpdate) := do
  let (ctx, updates) := state
  let v ← ctx.mustGetValidator addr
  let (ctx, v) ← beginUnbondingValidator ctx v
  return ({ ctx with staking := ctx.staking.deleteLastValidatorPower v.operatorAddress },
    updates ++ [v.abciValidatorUpdateZero])

def applyAndReturnValidatorSetUpdates (ctx : Context Denom) :
    Except Failure (Context Denom × List ValidatorUpdate) := do
  let e ← electFrom ctx.staking.params.maxValidators
    ⟨ctx, ctx.staking.lastValidatorPower, [], 0, 0⟩ ctx.staking.validatorsByPowerDescending
  let (ctx, updates) ← e.last.keys.foldlM discharge (e.ctx, e.updates)
  if updates.isEmpty then
    return (ctx, updates)
  else
    return ({ ctx with staking := { ctx.staking with lastTotalPower := e.totalPower } }, updates)

/-- The variables of the two loops that replace abandoned validators. -/
structure Replacement (Denom : Type) where
  ctx : Context Denom
  updates : List ValidatorUpdate
  totalPower : Int

def promote (r : Replacement Denom) (addr : Address) (v : Validator) : Replacement Denom :=
  let (ctx, v) := bondValidator r.ctx v
  let newPower := v.consensusPowerByShares
  { ctx := { ctx with staking := ctx.staking.setLastValidatorPower addr newPower }
    updates := r.updates ++ [v.abciValidatorUpdateByShares]
    totalPower := r.totalPower + newPower }

/-- Promote as many candidates as validators were abandoned. -/
def promoteFrom (lastBondedVals : SortedMap Address Int) :
    Nat → Replacement Denom → List Address → Except Failure (Replacement Denom)
  | 0, r, _ => .ok r
  | _ + 1, r, [] => .ok r
  | abandonedNum + 1, r, addr :: rest =>
    match lastBondedVals.get addr with
    | some _ => promoteFrom lastBondedVals (abandonedNum + 1) r rest
    | none => do
      let v ← r.ctx.mustGetValidator addr
      if v.potentialConsensusPowerByShares = 0 then
        promoteFrom lastBondedVals (abandonedNum + 1) r rest
      else if v.isBonded then
        throw (.panic "Panic. Candidate validator is not allowed to be in bonded status")
      else
        promoteFrom lastBondedVals abandonedNum (promote r addr v) rest

/-- Discharge an abandoned validator unless it already left the bonded set. -/
def dischargeAbandoned (lastBondedVals : SortedMap Address Int) (r : Replacement Denom)
    (addr : Address) : Except Failure (Replacement Denom) := do
  let v ← r.ctx.mustGetValidator addr
  if v.isBonded then
    let (ctx, updates) ← discharge (r.ctx, r.updates) addr
    let oldPower ← orPanic (lastBondedVals.get addr) "Never occur"
    return ⟨ctx, updates, r.totalPower - oldPower⟩
  else
    return r

def kickOutAndReturnValidatorSetUpdates (ctx : Context Denom) :
    Except Failure (Context Denom × List ValidatorUpdate) := do
  let lastBondedVals := ctx.staking.lastValidatorPower
  let abandoned := ctx.staking.abandonedValidatorAddrs
  let r ← promoteFrom lastBondedVals abandoned.length ⟨ctx, [], ctx.staking.lastTotalPower⟩
    ctx.staking.validatorsByPowerDescending
  let r ← abandoned.foldlM (dischargeAbandoned lastBondedVals) r
  let ctx := r.ctx
  return ({ ctx with staking := { ctx.staking with lastTotalPower := r.totalPower } }, r.updates)

section

variable (chain : Chain Denom) (ctx : Context Denom)

/-- The unbonding of one validator is complete; without shares and its own stake it is removed. -/
def unbondMature (addr : Address) : Except Failure (Context Denom) := do
  let v ← orPanic (ctx.staking.getValidator addr) "validator in the unbonding queue was not found"
  require (v.status = .unbonding)
    (.panic "unexpected validator in unbonding queue; status was not unbonding")
  let (ctx, v) := completeUnbondingValidator ctx v
  if v.delegatorShares = 0 && v.minSelfDelegation = 0 then
    removeValidator chain ctx v.operatorAddress
  else
    return ctx

def unbondTimeslice (slice : Time × List Address) : Except Failure (Context Denom) := do
  let ctx ← slice.2.foldlM (unbondMature chain) ctx
  let queue := ctx.staking.validatorQueue.delete slice.1
  return { ctx with staking := { ctx.staking with validatorQueue := queue } }

def unbondAllMatureValidatorQueue : Except Failure (Context Denom) :=
  let mature := ctx.staking.validatorQueue.pairs.filter (fun entry => entry.1 ≤ ctx.header.time)
  mature.foldlM (unbondTimeslice chain) ctx

end

variable [DecidableEq Denom]

variable (chain : Chain Denom) (ctx : Context Denom)

def completeUndelegation (del : Address) : Except Failure (Context Denom × Dec) := do
  let info ← orErr (ctx.staking.getUndelegating del) .errNotInDelegating
  let funds ← ctx.funds.sendCoins .notBondedPool (.user info.delegatorAddress)
    (bondCoins chain info.quantity)
  return ({ ctx with funds, staking := ctx.staking.deleteUndelegating del }, info.quantity)

/-- Pay one undelegation whose time has come; a failure is only logged. -/
def completeMature (key : Time × Address) : Context Denom :=
  let ctx := { ctx with staking := ctx.staking.deleteAddrByTimeKey key.1 key.2 }
  match completeUndelegation chain ctx key.2 with
  | .ok (ctx, quantity) => ctx.emit (.completeUnbonding ctx.header.time key.2 quantity)
  | .error _ => ctx

def completeMatureUndelegations : Context Denom :=
  let mature := (ctx.staking.undelegateQueue.keys.map ofLex).filter
    (fun key => key.1 ≤ ctx.header.time)
  mature.foldl (completeMature chain) ctx

def isEndOfEpoch : Bool :=
  (ctx.header.height - ctx.staking.theEndOfLastEpoch).tmod ctx.staking.epoch = 0

/-- The end of an epoch elects a new set, within an epoch the abandoned validators are
replaced. -/
def updateValidatorSet : Except Failure (Context Denom × List ValidatorUpdate) :=
  if isEndOfEpoch ctx then
    let staking := { ctx.staking with
      epoch := ctx.staking.params.epoch, theEndOfLastEpoch := ctx.header.height }
    applyAndReturnValidatorSetUpdates { ctx with staking }
  else if ctx.staking.abandonedValidatorAddrs ≠ [] then
    kickOutAndReturnValidatorSetUpdates ctx
  else
    .ok (ctx, [])

/-- The updates are what the consensus engine gets. -/
def endBlocker : Except Failure (Context Denom × List ValidatorUpdate) := do
  let (ctx, updates) ← updateValidatorSet ctx
  let staking := { ctx.staking with abandonedValidatorAddrs := [] }
  let ctx ← unbondAllMatureValidatorQueue chain { ctx with staking }
  return (completeMatureUndelegations chain ctx, updates)

end Exchain.Staking
