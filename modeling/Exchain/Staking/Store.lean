import Exchain.Sdk.Dec
import Exchain.Lib.SortedMap
import Mathlib.Data.Prod.Lex

/-! The store of the staking module: validators with their three indexes, delegators, the shares
they added, the bindings between delegators and proxies, and the undelegations under way. Addresses
are the numbers their bytes write in base 256, so keys made of addresses keep the order of the
store. -/

namespace Exchain.Staking

abbrev Address := Nat

abbrev ConsAddress := Nat

/-- Nanoseconds since the beginning of 1970. -/
abbrev Time := Int

inductive BondStatus where
  | unbonded
  | unbonding
  | bonded
  deriving DecidableEq, Repr

structure Commission where
  rate : Dec
  maxRate : Dec
  updateTime : Time
  deriving DecidableEq, Repr

structure Validator where
  operatorAddress : Address
  consAddress : ConsAddress
  jailed : Bool
  status : BondStatus
  tokens : Int
  delegatorShares : Dec
  unbondingHeight : Int
  unbondingCompletionTime : Time
  commission : Commission
  minSelfDelegation : Dec
  deriving DecidableEq, Repr

structure Delegator where
  delegatorAddress : Address
  validatorAddresses : List Address
  shares : Dec
  tokens : Dec
  isProxy : Bool
  totalDelegatedTokens : Dec
  proxyAddress : Option Address
  deriving DecidableEq, Repr

structure UndelegationInfo where
  delegatorAddress : Address
  quantity : Dec
  completionTime : Time
  deriving DecidableEq, Repr

/-- The parameters, each with the check its setter makes. -/
structure Params where
  unbondingTime : Time
  maxValidators : Nat
  epoch : Nat
  maxValsToAddShares : Nat
  minDelegation : Dec
  minSelfDelegation : Dec
  unbondingTime_pos : 0 < unbondingTime
  maxValidators_pos : 0 < maxValidators
  epoch_pos : 0 < epoch
  minDelegation_pos : 0 < minDelegation
  minSelfDelegation_pos : 0 < minSelfDelegation

/-- Keys of the power index: the power as an unsigned number, then the address with inverted bits.
-/
abbrev PowerKey := ℕ ×ₗ ℕᵒᵈ

structure Store where
  params : Params
  epoch : Nat
  theEndOfLastEpoch : Int
  validators : SortedMap Address Validator
  validatorsByConsAddr : SortedMap ConsAddress Address
  validatorsByPower : SortedMap PowerKey Address
  lastValidatorPower : SortedMap Address Int
  lastTotalPower : Int
  validatorQueue : SortedMap Time (List Address)
  abandonedValidatorAddrs : List Address
  delegators : SortedMap Address Delegator
  /-- The shares a delegator added to a validator, under the validator and the delegator. -/
  shares : SortedMap (Address ×ₗ Address) Dec
  /-- The delegators bound to a proxy, under the proxy and the delegator. -/
  proxyBindings : SortedMap (Address ×ₗ Address) Unit
  undelegations : SortedMap Address UndelegationInfo
  undelegateQueue : SortedMap (Time ×ₗ Address) Unit

inductive Err where
  | errBadDenom
  | errDisabledOperate
  | errBadDelegationAmount
  | errInsufficientQuantity
  | errInsufficientDelegation
  | errNoDelegationToAddShares
  | errInvalidProxyWithdrawTotal
  | errInvalidProxyUpdating
  | errInvalidAddress
  | errNoDelegatorExisted
  | errAddSharesToDismission
  | errNoValidatorFound
  | errNoMinSelfDelegation
  | errMoreMinSelfDelegation
  | errAlreadyAddedShares
  | errProxyNotFound
  | errDoubleProxy
  | errInvalidDelegation
  | errProxyAlreadyExist
  | errAlreadyBound
  | errDelegatorEqualToProxyAddr
  | errEmptyValidators
  | errExceedValidatorAddrs
  | errTargetValsDuplicate
  | errAddSharesDuringProxy
  | errValidatorOwnerExists
  | errValidatorPubKeyExists
  | errNotInDelegating
  | errCommissionUpdateTime
  | errCommissionNegative
  | errCommissionGTMaxRate
  | errUnknownRequest
  | errNoValidatorForAddress
  | errMissingSelfDelegation
  | errValidatorNotJailed
  | errValidatorDestroying
  | errValidatorJailed
  | errNoValidatorCommission
  | errNotSupportWithdrawDelegationRewards
  | errNotSupportDistributionProposal
  | errZeroDelegationShares
  | errEmptyValidatorDistInfo
  | errEmptyDelegationDistInfo
  | errEmptyDelegationVoteValidator
  | errWithdrawAddrInblacklist
  | errSetWithdrawAddrDisabled
  | errDisabledWithdrawRewards
  | errUnknownDistributionMsgType
  | errBadDistribution
  | errBadDecimal
  | errBadValidatorAddr
  | errMinSelfDelegationInvalid
  | errInvalidCommissionRate
  | errUnauthorized
  | send (error : String)
  deriving DecidableEq, Repr

/-- A handler fails with an error or by a panic. -/
inductive Failure where
  | err (error : Err)
  | panic (message : String)
  deriving DecidableEq, Repr

/-- A check of a handler. -/
def require (condition : Prop) [Decidable condition] (failure : Failure) : Except Failure Unit :=
  if condition then .ok () else .error failure

theorem require_eq_ok {condition : Prop} [Decidable condition] {failure : Failure} {done : Unit} :
    require condition failure = .ok done ↔ condition := by
  unfold require
  split
  · rename_i met
    exact iff_of_true rfl met
  · rename_i missed
    exact iff_of_false (fun equal => by cases equal) missed

def panicOnError {α : Type} (result : Except Failure α) (message : String) : Except Failure α :=
  match result with
  | .ok a => .ok a
  | .error _ => .error (.panic message)

theorem panicOnError_eq_ok {α : Type} {result : Except Failure α} {message : String} {a : α} :
    panicOnError result message = .ok a ↔ result = .ok a := by
  cases result <;> simp [panicOnError]

def Delegator.hasProxy (d : Delegator) : Bool := d.proxyAddress.isSome

def newDelegator (addr : Address) : Delegator where
  delegatorAddress := addr
  validatorAddresses := []
  shares := 0
  tokens := 0
  isProxy := false
  totalDelegatedTokens := 0
  proxyAddress := none

/-- The number a machine word of 64 bits makes of an integer. -/
def int64 (i : Int) : Int := Int.bmod i (2 ^ 64)

def sharesToConsensusPower (shares : Dec) : Int := int64 (shares.tdiv Dec.precision)

variable (v : Validator)

def Validator.potentialConsensusPowerByShares : Int :=
  sharesToConsensusPower v.delegatorShares

def Validator.isBonded : Bool := v.status = .bonded

def Validator.isUnbonded : Bool := v.status = .unbonded

def Validator.consensusPowerByShares : Int :=
  if v.isBonded then v.potentialConsensusPowerByShares else 0

def powerKey (shares : Dec) (addr : Address) : PowerKey :=
  toLex ((sharesToConsensusPower shares % 2 ^ 64).toNat, OrderDual.toDual addr)

def Validator.powerKey : PowerKey :=
  Staking.powerKey v.delegatorShares v.operatorAddress

namespace Store

variable (s : Store)

def getValidator (addr : Address) : Option Validator := s.validators.get addr

def getValidatorByConsAddr (cons : ConsAddress) : Option Validator :=
  (s.validatorsByConsAddr.get cons).bind s.getValidator

variable (v : Validator)

def setValidator : Store :=
  { s with validators := s.validators.set v.operatorAddress v }

def setValidatorByConsAddr : Store :=
  { s with validatorsByConsAddr := s.validatorsByConsAddr.set v.consAddress v.operatorAddress }

/-- Jailed validators are not kept in the power index. -/
def setValidatorByPowerIndex : Store := if v.jailed then s
  else { s with validatorsByPower := s.validatorsByPower.set v.powerKey v.operatorAddress }

def setNewValidatorByPowerIndex : Store :=
  { s with validatorsByPower := s.validatorsByPower.set v.powerKey v.operatorAddress }

def deleteValidatorByPowerIndex : Store :=
  { s with validatorsByPower := s.validatorsByPower.delete v.powerKey }

def setLastValidatorPower (addr : Address) (power : Int) : Store :=
  { s with lastValidatorPower := s.lastValidatorPower.set addr power }

def deleteLastValidatorPower (addr : Address) : Store :=
  { s with lastValidatorPower := s.lastValidatorPower.delete addr }

def getDelegator (addr : Address) : Option Delegator := s.delegators.get addr

def setDelegator (d : Delegator) : Store :=
  { s with delegators := s.delegators.set d.delegatorAddress d }

def deleteDelegator (addr : Address) : Store :=
  { s with delegators := s.delegators.delete addr }

def setShares (del val : Address) (shares : Dec) : Store :=
  { s with shares := s.shares.set (toLex (val, del)) shares }

def deleteShares (val del : Address) : Store :=
  { s with shares := s.shares.delete (toLex (val, del)) }

def setProxyBinding (proxy del : Address) (isRemove : Bool) : Store :=
  if isRemove then { s with proxyBindings := s.proxyBindings.delete (toLex (proxy, del)) }
  else { s with proxyBindings := s.proxyBindings.set (toLex (proxy, del)) () }

def getUndelegating (addr : Address) : Option UndelegationInfo := s.undelegations.get addr

def setUndelegating (info : UndelegationInfo) : Store :=
  { s with undelegations := s.undelegations.set info.delegatorAddress info }

def deleteUndelegating (addr : Address) : Store :=
  { s with undelegations := s.undelegations.delete addr }

def setAddrByTimeKeyWithNilValue (time : Time) (addr : Address) : Store :=
  { s with undelegateQueue := s.undelegateQueue.set (toLex (time, addr)) () }

def deleteAddrByTimeKey (time : Time) (addr : Address) : Store :=
  { s with undelegateQueue := s.undelegateQueue.delete (toLex (time, addr)) }

def getValidatorQueueTimeSlice (time : Time) : List Address :=
  (s.validatorQueue.get time).getD []

def insertValidatorQueue : Store :=
  let keys := s.getValidatorQueueTimeSlice v.unbondingCompletionTime ++ [v.operatorAddress]
  { s with validatorQueue := s.validatorQueue.set v.unbondingCompletionTime keys }

def deleteValidatorQueue : Store :=
  let newTimeSlice := (s.getValidatorQueueTimeSlice v.unbondingCompletionTime).filter
    (· ≠ v.operatorAddress)
  if newTimeSlice.isEmpty then
    { s with validatorQueue := s.validatorQueue.delete v.unbondingCompletionTime }
  else
    { s with validatorQueue := s.validatorQueue.set v.unbondingCompletionTime newTimeSlice }

/-- The validators a delegator added shares to that are still in the store, and the shares. -/
def getLastValsAddedSharesExisted (del : Address) : List Validator × Dec :=
  match s.getDelegator del with
  | none => ([], 0)
  | some d => (d.validatorAddresses.filterMap s.getValidator, d.shares)

/-- The validators of the given addresses, unless one does not exist. -/
def getValidatorsToAddShares (vals : List Address) : Except Failure (List Validator) :=
  vals.mapM fun addr =>
    match s.getValidator addr with
    | some v => .ok v
    | none => .error (.err .errNoValidatorFound)

end Store

end Exchain.Staking
