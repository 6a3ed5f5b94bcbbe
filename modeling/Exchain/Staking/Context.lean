import Exchain.Distribution.Rewards

/-! What a handler of the staking module works on: the block header, the stores of the staking,
slashing and distribution modules, the balances, the events so far and the validators the consensus
engine votes with. -/

namespace Exchain.Staking

open Distribution (Chain Header Funds)

inductive ValStatus where
  | created
  | destroying
  | destroyed
  deriving DecidableEq, Repr

/-- Signing information without the window of missed blocks. -/
structure SigningInfo where
  jailedUntil : Time
  tombstoned : Bool
  validatorStatus : ValStatus
  deriving DecidableEq, Repr

structure SlashingStore where
  downtimeJailDuration : Time
  maxEvidenceAge : Time
  signingInfo : SortedMap ConsAddress SigningInfo
  pubkeys : SortedMap ConsAddress Unit

namespace SlashingStore

variable (k : SlashingStore) (cons : ConsAddress)

def setValidatorSigningInfo (info : SigningInfo) : SlashingStore :=
  { k with signingInfo := k.signingInfo.set cons info }

def modifyValidatorStatus (status : ValStatus) : SlashingStore :=
  match k.signingInfo.get cons with
  | some info => k.setValidatorSigningInfo cons { info with validatorStatus := status }
  | none => k

def afterValidatorBonded : SlashingStore :=
  match k.signingInfo.get cons with
  | some _ => k
  | none => k.setValidatorSigningInfo cons ⟨0, false, .created⟩

def afterValidatorCreated : SlashingStore :=
  { k with pubkeys := k.pubkeys.set cons () }.modifyValidatorStatus cons .created

def afterValidatorRemoved : SlashingStore :=
  { k with pubkeys := k.pubkeys.delete cons }.modifyValidatorStatus cons .destroyed

def afterValidatorDestroyed : SlashingStore :=
  k.modifyValidatorStatus cons .destroying

end SlashingStore

/-- The events about unbonding, with the time of their block. -/
inductive Event where
  | unbond (blockTime : Time) (sender : Address) (amount : Dec) (completionTime : Time)
  | completeUnbonding (blockTime : Time) (delegator : Address) (amount : Dec)
  deriving DecidableEq, Repr

structure Context (Denom : Type) where
  header : Header
  staking : Store
  slashing : SlashingStore
  funds : Funds Denom
  events : List Event
  /-- The power every validator votes with. -/
  consensusSet : SortedMap ConsAddress Int

variable {Denom : Type}

def fixedWeight : Int := 11700000

def calculateWeight (chain : Chain Denom) (header : Header) (tokens : Dec) : Except Failure Dec :=
  if chain.higherThanVenus6 header.height then .ok (tokens * fixedWeight)
  else match chain.weightByDec header.time with
    | some weightByDec => .ok (Dec.mul tokens weightByDec)
    | none => .error (.err .errBadDecimal)

theorem calculateWeight_pos {chain : Chain Denom} {header : Header} {tokens shares : Dec}
    (positive : 0 < tokens) (weighed : calculateWeight chain header tokens = .ok shares) :
    0 < shares := by
  unfold calculateWeight at weighed
  split at weighed
  · cases weighed
    exact mul_pos positive (by decide)
  split at weighed
  · rename_i weight found
    cases weighed
    exact lt_of_lt_of_le positive (Dec.le_mul positive.le (chain.one_le_weight _ _ found))
  · cases weighed

/-- The value of a lookup that a handler answers with an error otherwise. -/
def orErr {ν : Type} (value : Option ν) (error : Err) : Except Failure ν := match value with
  | some v => .ok v
  | none => .error (.err error)

theorem orErr_eq_ok {ν : Type} {value : Option ν} {error : Err} {v : ν} :
    orErr value error = .ok v ↔ value = some v := by
  cases value <;> simp [orErr]

namespace Context

def mustGetValidator (ctx : Context Denom) (addr : Address) : Except Failure Validator :=
  match ctx.staking.getValidator addr with
  | some v => .ok v
  | none => .error (.panic "validator record not found for address")

def mustGetValidatorByConsAddr (ctx : Context Denom) (cons : ConsAddress) : Except Failure Validator :=
  match ctx.staking.getValidatorByConsAddr cons with
  | some v => .ok v
  | none => .error (.panic "validator with consensus-Address not found")

def emit (ctx : Context Denom) (event : Event) : Context Denom :=
  { ctx with events := ctx.events ++ [event] }

end Context

end Exchain.Staking
