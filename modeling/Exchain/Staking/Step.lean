import Exchain.Staking.Messages
import Exchain.Lib.PartialRun

/-! The chain as far as the staking module sees it. A step is the beginning of a block with its
votes and evidence, a message, the end of a block, a decision of the governance, or whatever other
modules do to the balances of users and the collected fees. -/

namespace Exchain.Staking

open Distribution (Chain Header Funds orPanic DistributionType Account)

variable {Denom : Type} [Fintype Denom]

/-- One validator of the last commit, and whether it missed more blocks of the window than it may.
-/
structure VoteInfo where
  address : ConsAddress
  power : Int
  missedTooMany : Bool
  deriving DecidableEq, Repr

structure Equivocation where
  consensusAddress : ConsAddress
  time : Time
  deriving DecidableEq, Repr

section

variable (chain : Chain Denom) (ctx : Context Denom)

/-- Jail a validator that missed too many blocks, unless it is gone or jailed already. -/
def punishDowntime (cons : ConsAddress) (info : SigningInfo) : Except Failure (Context Denom) :=
  match ctx.staking.getValidatorByConsAddr cons with
  | none => .ok ctx
  | some v =>
    if v.jailed then .ok ctx
    else do
      let ctx ← jail ctx cons
      let ctx ← appendAbandonedValidatorAddrs ctx cons
      let punished := { info with
        jailedUntil := ctx.header.time + ctx.slashing.downtimeJailDuration }
      return { ctx with slashing := ctx.slashing.setValidatorSigningInfo cons punished }

def handleValidatorSignature (vote : VoteInfo) : Except Failure (Context Denom) := do
  let _ ← orPanic (ctx.slashing.pubkeys.get vote.address) "Validator consensus-address not found"
  let info ← orPanic (ctx.slashing.signingInfo.get vote.address)
    "Expected signing info for validator but not found"
  if vote.missedTooMany then punishDowntime ctx vote.address info else return ctx

/-- The end of the year 9999. -/
def doubleSignJailEndTime : Time := 253402300799 * 1000000000

def jailUnlessJailed (cons : ConsAddress) (v : Validator) : Except Failure (Context Denom) :=
  if v.jailed then .ok ctx else jail ctx cons

/-- Jail a validator for good, also one that is in jail or unbonding. -/
def punishDoubleSign (cons : ConsAddress) (v : Validator) (info : SigningInfo) :
    Except Failure (Context Denom) := do
  let ctx ← appendAbandonedValidatorAddrs ctx cons
  let ctx ← jailUnlessJailed ctx cons v
  let punished := { info with jailedUntil := doubleSignJailEndTime, tombstoned := true }
  return { ctx with slashing := ctx.slashing.setValidatorSigningInfo cons punished }

def handleDoubleSign (evidence : Equivocation) : Except Failure (Context Denom) :=
  let cons := evidence.consensusAddress
  if ctx.slashing.pubkeys.get cons = none then .ok ctx
  else if ctx.slashing.maxEvidenceAge < ctx.header.time - evidence.time then .ok ctx
  else
    match ctx.staking.getValidatorByConsAddr cons with
    | none => .ok ctx
    | some v =>
      if v.isUnbonded then .ok ctx
      else do
        let info ← orPanic (ctx.slashing.signingInfo.get cons)
          "expected signing info for validator but not found"
        if info.tombstoned then return ctx else punishDoubleSign ctx cons v info

/-- The fees of the previous block are allocated from the second block on. -/
def allocateFees (header : Header) (ctx : Context Denom) (votes : List VoteInfo) :
    Except Failure (Funds Denom) :=
  if chain.startBlockHeight + 1 < header.height then
    Distribution.allocateTokens chain header ctx.staking ctx.funds (votes.map (·.power)).sum
      (votes.map (·.address))
  else .ok ctx.funds

/-- The next block begins: the fees are allocated, then votes and evidence handled. -/
def beginBlocker (elapsed : Nat) (votes : List VoteInfo)
    (evidence : List Equivocation) : Except Failure (Context Denom) := do
  let header : Header := ⟨ctx.header.height + 1, ctx.header.time + elapsed⟩
  let funds ← allocateFees chain header ctx votes
  let ctx ← votes.foldlM handleValidatorSignature { ctx with header, funds }
  evidence.foldlM handleDoubleSign ctx

/-- The decisions of the governance that the modules carry out. -/
inductive Proposal (Denom : Type) where
  | changeParams (params : Params)
  | changeDistributionType (distributionType : DistributionType)
  | withdrawRewardEnabled (enabled : Bool)
  | rewardTruncatePrecision (precision : Fin 19)
  | communityPoolSpend (recipient : Address) (amount : Coins Denom)

def initExistedValidatorForDistrProposal (d : Distribution.Store Denom) (v : Validator) :
    Distribution.Store Denom :=
  match d.outstandingRewards.get v.operatorAddress with
  | some _ => d
  | none =>
    let commission := d.getValidatorAccumulatedCommission v.operatorAddress
    { d with
      historicalRewards := d.historicalRewards.set (toLex (v.operatorAddress, 0)) ⟨0, 2⟩
      currentRewards := d.currentRewards.set v.operatorAddress ⟨0, 1⟩
      outstandingRewards := d.outstandingRewards.set v.operatorAddress commission }

def handleChangeDistributionTypeProposal (distributionType : DistributionType) : Context Denom :=
  let d := ctx.funds.distr
  if !chain.higherThanVenus2 ctx.header.height || d.distributionType = distributionType then ctx
  else
    let d := if distributionType = .onChain && !d.initExistedValidatorFlag then
      ctx.staking.validators.values.foldl initExistedValidatorForDistrProposal
        { d with initExistedValidatorFlag := true }
      else d
    { ctx with funds := { ctx.funds with distr := { d with distributionType } } }

def handleCommunityPoolSpendProposal (recipient : Address)
    (amount : Coins Denom) : Except Failure (Context Denom) := do
  let newPool ← orErr (ctx.funds.distr.communityPool.sub amount) .errBadDistribution
  let funds ← ctx.funds.sendCoins .distribution (.user recipient) amount
  return { ctx with funds := { funds with distr := { funds.distr with communityPool := newPool } } }

def handleProposal : Proposal Denom → Context Denom
  | .changeParams params => { ctx with staking := { ctx.staking with params } }
  | .changeDistributionType distributionType =>
    handleChangeDistributionTypeProposal chain ctx distributionType
  | .withdrawRewardEnabled enabled =>
    if !chain.higherThanVenus2 ctx.header.height then ctx
    else { ctx with funds := { ctx.funds with
      distr := { ctx.funds.distr with withdrawRewardEnabled := enabled } } }
  | .rewardTruncatePrecision precision =>
    if !chain.higherThanVenus2 ctx.header.height then ctx
    else { ctx with funds := { ctx.funds with
      distr := { ctx.funds.distr with rewardTruncatePrecision := precision } } }
  | .communityPoolSpend recipient amount =>
    match handleCommunityPoolSpendProposal ctx recipient amount with
    | .ok ctx' => ctx'
    | .error _ => ctx

def applyUpdates (set : SortedMap ConsAddress Int) (updates : List ValidatorUpdate) :
    SortedMap ConsAddress Int :=
  updates.foldl (fun set update =>
    if update.power = 0 then set.delete update.consAddress
    else set.set update.consAddress update.power) set

inductive Op (Denom : Type) where
  | beginBlock (elapsed : Nat) (votes : List VoteInfo) (evidence : List Equivocation)
  | deliver (msg : Msg Denom)
  | endBlock
  | govern (proposal : Proposal Denom)
  /-- The other modules set the balances of users and the collected fees. -/
  | others (users : Address → Coins Denom) (fees : Coins Denom)

/-- Other modules leave no balance negative and do not touch these modules' accounts. -/
def others (users : Address → Coins Denom) (fees : Coins Denom) : Context Denom :=
  let bank : Bank Account Denom
    | .user addr => fun denom => max 0 (users addr denom)
    | .feeCollector => fun denom => max 0 (fees denom)
    | .distribution => ctx.funds.bank .distribution
    | .bondedPool => ctx.funds.bank .bondedPool
    | .notBondedPool => ctx.funds.bank .notBondedPool
  { ctx with funds := { ctx.funds with bank } }

end

variable [DecidableEq Denom]

/-- A panic at the beginning or the end of a block stops the chain. -/
def step (chain : Chain Denom) (ctx : Context Denom) : Op Denom → Except Failure (Context Denom)
  | .beginBlock elapsed votes evidence => beginBlocker chain ctx elapsed votes evidence
  | .deliver msg => .ok (deliver chain ctx msg)
  | .endBlock => do
    let (ctx, updates) ← endBlocker chain ctx
    return { ctx with consensusSet := applyUpdates ctx.consensusSet updates }
  | .govern proposal => .ok (handleProposal chain ctx proposal)
  | .others users fees => .ok (others ctx users fees)

/-- The chain before its first block: no validators, no delegators, nothing in the modules'
accounts. -/
structure Genesis (ctx : Context Denom) : Prop where
  validators : ctx.staking.validators = ∅
  validatorsByConsAddr : ctx.staking.validatorsByConsAddr = ∅
  validatorsByPower : ctx.staking.validatorsByPower = ∅
  lastValidatorPower : ctx.staking.lastValidatorPower = ∅
  lastTotalPower : ctx.staking.lastTotalPower = 0
  validatorQueue : ctx.staking.validatorQueue = ∅
  abandonedValidatorAddrs : ctx.staking.abandonedValidatorAddrs = []
  delegators : ctx.staking.delegators = ∅
  shares : ctx.staking.shares = ∅
  proxyBindings : ctx.staking.proxyBindings = ∅
  undelegations : ctx.staking.undelegations = ∅
  undelegateQueue : ctx.staking.undelegateQueue = ∅
  signingInfo : ctx.slashing.signingInfo = ∅
  pubkeys : ctx.slashing.pubkeys = ∅
  events : ctx.events = []
  consensusSet : ctx.consensusSet = ∅
  bondedPool : ctx.funds.bank .bondedPool = 0
  notBondedPool : ctx.funds.bank .notBondedPool = 0
  distribution : ctx.funds.bank .distribution = 0
  balances : 0 ≤ ctx.funds.bank
  communityPool : ctx.funds.distr.communityPool = 0
  communityTax_nonneg : 0 ≤ ctx.funds.distr.communityTax
  communityTax_le : ctx.funds.distr.communityTax ≤ Dec.one
  initExistedValidatorFlag : ctx.funds.distr.initExistedValidatorFlag = false
  accumulatedCommission : ctx.funds.distr.accumulatedCommission = ∅
  outstandingRewards : ctx.funds.distr.outstandingRewards = ∅
  currentRewards : ctx.funds.distr.currentRewards = ∅
  historicalRewards : ctx.funds.distr.historicalRewards = ∅
  startingInfo : ctx.funds.distr.startingInfo = ∅

/-- A chain before its first block, with the default settings of the distribution. -/
def genesisContext (header : Header) (params : Params) (users : Address → Coins Denom) :
    Context Denom where
  header := header
  staking :=
    { params, epoch := params.epoch, theEndOfLastEpoch := 0, validators := ∅,
      validatorsByConsAddr := ∅, validatorsByPower := ∅, lastValidatorPower := ∅,
      lastTotalPower := 0, validatorQueue := ∅, abandonedValidatorAddrs := [], delegators := ∅,
      shares := ∅, proxyBindings := ∅, undelegations := ∅, undelegateQueue := ∅ }
  slashing :=
    { downtimeJailDuration := 600 * 1000000000, maxEvidenceAge := 120 * 1000000000,
      signingInfo := ∅, pubkeys := ∅ }
  funds :=
    { bank := fun
        | .user addr => fun denom => max 0 (users addr denom)
        | _ => 0
      distr :=
        { communityPool := 0, communityTax := Dec.withPrec 2 2, initExistedValidatorFlag := false,
          distributionType := .offChain, withdrawRewardEnabled := true, withdrawAddrEnabled := true,
          rewardTruncatePrecision := Distribution.defaultRewardTruncatePrecision, delegatorWithdrawAddr := ∅,
          accumulatedCommission := ∅, outstandingRewards := ∅, currentRewards := ∅, historicalRewards := ∅, startingInfo := ∅ } }
  events := []
  consensusSet := ∅

omit [Fintype Denom] [DecidableEq Denom] in
theorem genesisContext_genesis (header : Header) (params : Params) (users : Address → Coins Denom) :
    Genesis (genesisContext header params users) := by
  constructor
  case balances =>
    intro account
    cases account with
    | user addr => exact fun denom => le_max_left 0 _
    | _ => exact le_rfl
  case communityTax_nonneg => exact (by decide : (0 : Dec) ≤ Dec.withPrec 2 2)
  case communityTax_le => exact (by decide : Dec.withPrec 2 2 ≤ Dec.one)
  all_goals rfl

/-- The contexts the chain can reach. -/
def run (chain : Chain Denom) : Context Denom → List (Op Denom) → Except Failure (Context Denom) :=
  PartialRun.run (step chain)

end Exchain.Staking
