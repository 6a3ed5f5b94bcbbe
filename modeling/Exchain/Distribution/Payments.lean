import Exchain.Distribution.Rewards
import Exchain.Lib.Fallible

namespace Exchain.Distribution

open Staking (Address Failure Err Validator Delegator panicOnError_eq_ok)
open Fallible (bind_eq_ok of_bind)

variable {Denom : Type}

def Store.settings (d : Store Denom) : Store Denom :=
  { d with
    communityPool := 0, accumulatedCommission := ∅, outstandingRewards := ∅, currentRewards := ∅,
    historicalRewards := ∅, startingInfo := ∅ }

structure RewardsMoved (f f' : Funds Denom) : Prop where
  settings : f'.distr.settings = f.distr.settings
  pools : ∀ account, account ≠ .distribution → (∀ addr, account ≠ .user addr) →
    f'.bank account = f.bank account

theorem RewardsMoved.refl (f : Funds Denom) : RewardsMoved f f := ⟨rfl, fun _ _ _ => rfl⟩

variable {chain : Chain Denom} {d d' : Store Denom} {del : Address} {f : Funds Denom} {header : Header}
  {staking : Staking.Store} {val : Address}

theorem RewardsMoved.trans {g h : Funds Denom} (first : RewardsMoved f g)
    (second : RewardsMoved g h) : RewardsMoved f h :=
  ⟨second.settings.trans first.settings, fun account own user =>
    (second.pools account own user).trans (first.pools account own user)⟩

theorem RewardsMoved.of_distr
    (settings : d.settings = f.distr.settings) : RewardsMoved f { f with distr := d } :=
  ⟨settings, fun _ _ _ => rfl⟩

theorem incrementReferenceCount_settings {period : Nat}
    (done : incrementReferenceCount d val period = .ok d') : d'.settings = d.settings := by
  obtain ⟨_, done⟩ := of_bind done
  obtain ⟨-, done⟩ := of_bind done
  cases done
  rfl

theorem decrementReferenceCount_settings {period : Nat}
    (done : decrementReferenceCount d val period = .ok d') : d'.settings = d.settings := by
  obtain ⟨_, done⟩ := of_bind done
  obtain ⟨-, done⟩ := of_bind done
  simp only at done
  split at done <;>
  · cases done
    rfl

theorem initializeDelegation_settings

    (done : initializeDelegation chain header staking d val del = .ok d') :
    d'.settings = d.settings := by
  unfold initializeDelegation at done
  split at done
  · cases done
    rfl
  obtain ⟨_, done⟩ := of_bind done
  obtain ⟨_, counted, done⟩ := bind_eq_ok.mp done
  obtain ⟨_, done⟩ := of_bind done
  cases done
  have kept := incrementReferenceCount_settings counted
  exact kept

theorem ensureStartInfo_settings

    (done : ensureStartInfo chain header staking d val del = .ok d') : d'.settings = d.settings := by
  unfold ensureStartInfo at done
  split at done
  · cases done
    rfl
  obtain ⟨_, done⟩ := of_bind done
  obtain ⟨-, done⟩ := of_bind done
  unfold initExistedDelegationStartInfo at done
  split at done
  · cases done
    rfl
  obtain ⟨_, counted, done⟩ := bind_eq_ok.mp done
  cases done
  have kept := incrementReferenceCount_settings counted
  exact kept

variable {vals : List Address}

theorem forValidators_moved {hook : Funds Denom → Validator → Except Failure (Funds Denom)}
    (each : ∀ f f' val, hook f val = .ok f' → RewardsMoved f f')
    {f' : Funds Denom} (done : forValidators staking hook f vals = .ok f') : RewardsMoved f f' := by
  apply Fallible.foldlM_within RewardsMoved.refl RewardsMoved.trans _ done
  intro addr _ f f' once
  obtain ⟨val, once⟩ := of_bind once
  exact each f f' val once

theorem afterDelegationModified_moved {f' : Funds Denom}
    (done : afterDelegationModified chain header staking f del vals = .ok f') :
    RewardsMoved f f' := by
  unfold afterDelegationModified at done
  split at done
  · cases done
    exact RewardsMoved.refl f
  apply Fallible.foldlM_within RewardsMoved.refl RewardsMoved.trans _ done
  intro addr _ f f' once
  obtain ⟨_, started, once⟩ := bind_eq_ok.mp once
  cases once
  exact RewardsMoved.of_distr (initializeDelegation_settings started)

variable [Fintype Denom]
  {chain : Chain Denom} {del : Address} {f f' : Funds Denom} {header : Header}
  {staking : Staking.Store} {val : Validator}

theorem RewardsMoved.of_sendCoins {addr : Address} {coins : Coins Denom}
    (sent : f.sendCoins .distribution (.user addr) coins = .ok f') : RewardsMoved f f' := by
  obtain ⟨same, -, -, balances⟩ := Funds.sendCoins_ok sent
  refine ⟨by rw [same], fun account own user => ?_⟩
  rw [balances, if_neg own, if_neg (user addr), sub_zero, add_zero]

theorem currentRatio_settings {rewards : Coins Denom}
    {result : Store Denom × Coins Denom} (done : currentRatio d val rewards = .ok result) :
    result.1.settings = d.settings := by
  unfold currentRatio at done
  split at done
  · obtain ⟨_, done⟩ := of_bind done
    obtain ⟨_, done⟩ := of_bind done
    cases done
    rfl
  · obtain ⟨_, done⟩ := of_bind done
    cases done
    rfl

theorem incrementValidatorPeriod_settings {result : Store Denom × Nat}
    (done : incrementValidatorPeriod chain header d val = .ok result) :
    result.1.settings = d.settings := by
  unfold incrementValidatorPeriod at done
  split at done
  · cases done
    rfl
  obtain ⟨_, done⟩ := of_bind done
  obtain ⟨⟨_, _⟩, ratio, done⟩ := bind_eq_ok.mp done
  obtain ⟨_, done⟩ := of_bind done
  obtain ⟨_, counted, done⟩ := bind_eq_ok.mp done
  cases done
  exact (decrementReferenceCount_settings counted).trans (currentRatio_settings ratio)

theorem payCoins_moved {addr : Address} {coins : Coins Denom}
    (done : payCoins f addr coins = .ok f') : RewardsMoved f f' := by
  unfold payCoins at done
  split at done
  · cases done
    exact RewardsMoved.refl f
  · exact RewardsMoved.of_sendCoins done

theorem payRewards_moved {val : Address} {rewardsRaw : Coins Denom}
    (done : payRewards f val del rewardsRaw = .ok f') : RewardsMoved f f' := by
  obtain ⟨_, done⟩ := of_bind done
  obtain ⟨_, paid, done⟩ := bind_eq_ok.mp done
  obtain ⟨_, done⟩ := of_bind done
  cases done
  exact (payCoins_moved paid).trans (RewardsMoved.of_distr rfl)

theorem withdrawDelegationRewards_moved

    (done : withdrawDelegationRewards chain header staking f val del = .ok f') :
    RewardsMoved f f' := by
  obtain ⟨-, done⟩ := of_bind done
  obtain ⟨_, started, done⟩ := bind_eq_ok.mp done
  obtain ⟨⟨_, _⟩, ended, done⟩ := bind_eq_ok.mp done
  obtain ⟨_, done⟩ := of_bind done
  obtain ⟨_, paid, done⟩ := bind_eq_ok.mp done
  obtain ⟨_, done⟩ := of_bind done
  obtain ⟨_, counted, done⟩ := bind_eq_ok.mp done
  cases done
  have period := (incrementValidatorPeriod_settings ended).trans (ensureStartInfo_settings started)
  have last := decrementReferenceCount_settings counted
  exact ((RewardsMoved.of_distr period).trans (payRewards_moved paid)).trans
    (RewardsMoved.of_distr last)

theorem forceWithdrawCommission_moved {val : Address} {commission : Coins Denom}
    (done : forceWithdrawCommission f val commission = .ok f') : RewardsMoved f f' := by
  have paid := panicOnError_eq_ok.mp done
  have pool : RewardsMoved f { f with distr := { f.distr with
    communityPool := f.distr.communityPool + (commission - commission.truncateWithPrec 0) } } :=
    RewardsMoved.of_distr rfl
  exact pool.trans (payCoins_moved paid)

theorem afterValidatorRemoved_moved
    {val : Address} (done : afterValidatorRemoved chain header f val = .ok f') :
    RewardsMoved f f' := by
  unfold afterValidatorRemoved at done
  split at done
  · obtain ⟨_, done⟩ := of_bind done
    obtain ⟨_, done⟩ := of_bind done
    obtain ⟨_, paid, done⟩ := bind_eq_ok.mp done
    cases done
    exact (forceWithdrawCommission_moved paid).trans (RewardsMoved.of_distr rfl)
  · obtain ⟨_, paid, done⟩ := bind_eq_ok.mp done
    cases done
    exact (forceWithdrawCommission_moved paid).trans (RewardsMoved.of_distr rfl)

theorem beforeDelegationCreated_moved
    (done : beforeDelegationCreated chain header staking f vals = .ok f') : RewardsMoved f f' := by
  unfold beforeDelegationCreated at done
  split at done
  · cases done
    exact RewardsMoved.refl f
  apply forValidators_moved _ done
  intro f f' val once
  obtain ⟨⟨_, _⟩, ended, once⟩ := bind_eq_ok.mp once
  cases once
  exact RewardsMoved.of_distr (incrementValidatorPeriod_settings ended)

theorem beforeDelegationSharesModified_moved
    (done : beforeDelegationSharesModified chain header staking f del vals = .ok f') :
    RewardsMoved f f' := by
  unfold beforeDelegationSharesModified at done
  split at done
  · cases done
    exact RewardsMoved.refl f
  · apply forValidators_moved _ done
    intro f f' val once
    exact withdrawDelegationRewards_moved (panicOnError_eq_ok.mp once)

end Exchain.Distribution
