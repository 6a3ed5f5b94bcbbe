import Exchain.Sdk.Bank
import Exchain.Staking.Store

/-! The store of the distribution module, and the funds shared with the staking module: the balances
of users and module accounts. -/

namespace Exchain.Distribution

open Staking (Address Time Failure Err Validator Delegator)

/-- The accounts of users and of modules. Coins are sent to users only; the module accounts may not
receive any. -/
inductive Account where
  | user (addr : Address)
  | feeCollector
  | distribution
  | bondedPool
  | notBondedPool
  deriving DecidableEq, Repr

inductive DistributionType where
  | offChain
  | onChain
  deriving DecidableEq, Repr

structure ValidatorCurrentRewards (Denom : Type) where
  rewards : Coins Denom
  period : Nat

structure ValidatorHistoricalRewards (Denom : Type) where
  cumulativeRewardRatio : Coins Denom
  referenceCount : Nat

structure DelegatorStartingInfo where
  previousPeriod : Nat
  stake : Dec
  height : Int
  deriving DecidableEq, Repr

structure Store (Denom : Type) where
  communityPool : Coins Denom
  communityTax : Dec
  initExistedValidatorFlag : Bool
  distributionType : DistributionType
  withdrawRewardEnabled : Bool
  withdrawAddrEnabled : Bool
  rewardTruncatePrecision : Fin 19
  delegatorWithdrawAddr : SortedMap Address Address
  accumulatedCommission : SortedMap Address (Coins Denom)
  outstandingRewards : SortedMap Address (Coins Denom)
  currentRewards : SortedMap Address (ValidatorCurrentRewards Denom)
  /-- The cumulative reward ratios, under the validator and the period. -/
  historicalRewards : SortedMap (Address ×ₗ ℕ) (ValidatorHistoricalRewards Denom)
  /-- Where the rewards of a delegation start, under the validator and the delegator. -/
  startingInfo : SortedMap (Address ×ₗ Address) DelegatorStartingInfo

structure Funds (Denom : Type) where
  bank : Bank Account Denom
  distr : Store Denom

/-- What does not change from block to block: the staking token, the first height, two upgrade
heights and the weight of a token before the second one, as the decimal printed for it: two to the
power of the years since 2000, so at least one. -/
structure Chain (Denom : Type) where
  bondDenom : Denom
  startBlockHeight : Int
  milestoneVenus2Height : Int
  milestoneVenus6Height : Int
  weightByDec : Time → Option Dec
  one_le_weight : ∀ time weight, weightByDec time = some weight → Dec.one ≤ weight

theorem one_le_of_unweighted : ∀ (_ : Time) (weight : Dec), none = some weight → Dec.one ≤ weight := by
  intro _ _ none
  cases none

/-- GetRewardTruncatePrecision while none is set. -/
def defaultRewardTruncatePrecision : Fin 19 := 0

structure Header where
  height : Int
  time : Time
  deriving DecidableEq, Repr

def Chain.higherThanVenus2 {Denom : Type} (chain : Chain Denom) (height : Int) : Bool :=
  chain.milestoneVenus2Height ≠ 0 && decide (chain.milestoneVenus2Height ≤ height)

def Chain.higherThanVenus6 {Denom : Type} (chain : Chain Denom) (height : Int) : Bool :=
  chain.milestoneVenus6Height ≠ 0 && decide (chain.milestoneVenus6Height < height)

/-- A lookup that decodes whatever it finds panics on a missing entry. -/
def mustGet {ν : Type} (found : Option ν) : Except Failure ν := match found with
  | some v => .ok v
  | none => .error (.panic "cannot decode empty bytes")

def orPanic {ν : Type} (value : Option ν) (message : String) : Except Failure ν := match value with
  | some v => .ok v
  | none => .error (.panic message)

theorem orPanic_eq_ok {ν : Type} {value : Option ν} {message : String} {v : ν} :
    orPanic value message = .ok v ↔ value = some v := by
  cases value <;> simp [orPanic]

variable {Denom : Type} [Fintype Denom]

def Funds.sendCoins (f : Funds Denom) (sender recipient : Account) (amt : Coins Denom) :
    Except Failure (Funds Denom) :=
  match f.bank.sendCoins sender recipient amt with
  | .ok bank => .ok { f with bank }
  | .error .errInvalidCoins => .error (.err (.send "invalid coins"))
  | .error .errInsufficientFunds => .error (.err (.send "insufficient account funds"))

def Store.getDelegatorWithdrawAddr (d : Store Denom) (del : Address) : Address :=
  (d.delegatorWithdrawAddr.get del).getD del

/-- No entry counts as no commission. -/
def Store.getValidatorAccumulatedCommission (d : Store Denom) (val : Address) : Coins Denom :=
  (d.accumulatedCommission.get val).getD 0

theorem Funds.sendCoins_ok {f f' : Funds Denom} {sender recipient : Account} {amt : Coins Denom}
    (done : f.sendCoins sender recipient amt = .ok f') :
    f'.distr = f.distr ∧ 0 ≤ amt ∧ amt ≤ f.bank sender ∧ ∀ account, f'.bank account =
      f.bank account - (if account = sender then amt else 0) +
        (if account = recipient then amt else 0) := by
  unfold Funds.sendCoins at done
  split at done
  · rename_i bank sent
    cases done
    exact ⟨rfl, Bank.sendCoins_ok sent⟩
  · cases done
  · cases done

theorem Funds.sendCoins_succeeds {f : Funds Denom} {sender recipient : Account} {amt : Coins Denom}
    (valid : 0 ≤ amt) (enough : amt ≤ f.bank sender) :
    ∃ f', f.sendCoins sender recipient amt = .ok f' := by
  obtain ⟨bank, sent⟩ := @Bank.sendCoins_succeeds _ _ _ _ f.bank sender recipient amt valid enough
  exact ⟨{ f with bank }, by rw [Funds.sendCoins, sent]⟩

end Exchain.Distribution
