import Exchain.Staking.Delegating
import Exchain.Staking.Seats

namespace Exchain.Staking

open SortedMap Dec

open Distribution (Chain Header Funds Account RewardsMoved orPanic_eq_ok)
open Fallible (bind_eq_ok of_bind foldlM_cons_ok)

variable {Denom : Type}

theorem Books.of_accounts {s s' : Store} (books : Books s) (sound : Sound s')
    (accounts : s'.accounts = s.accounts) : Books s' where
  sound := sound
  chosen := books.chosen.of_same (congrArg (·.delegators) accounts :) (congrArg (·.shares) accounts :)
  proxied := books.proxied.of_same (congrArg (·.delegators) accounts :)
    (congrArg (·.proxyBindings) accounts :)

variable {v : Validator}

theorem Sound.create {s s' : Store} (sound : Sound s)
    (absent : s.validators.get v.operatorAddress = none)
    (free : s.getValidatorByConsAddr v.consAddress = none) (unjailed : v.jailed = false)
    (own : v.delegatorShares = v.ownShare)
    (validators : s'.validators = s.validators.set v.operatorAddress v)
    (byCons : s'.validatorsByConsAddr = s.validatorsByConsAddr.set v.consAddress v.operatorAddress)
    (byPower : ∀ key, (ofLex key).2 ≠ OrderDual.toDual v.operatorAddress →
      s'.validatorsByPower.get key = s.validatorsByPower.get key)
    (atPower : ∀ key, (ofLex key).2 = OrderDual.toDual v.operatorAddress →
      s'.validatorsByPower.get key = if key = v.powerKey then some v.operatorAddress else none)
    (shares : s'.shares = s.shares) : Sound s' where
  operator := by
    rw [validators]
    exact forall_set rfl fun addr _ => sound.operator addr
  consAddr := by
    have unlisted : ∀ other, s.validatorsByConsAddr.get v.consAddress ≠ some other := by
      intro other listed
      obtain ⟨_, found, -⟩ := (sound.consAddr _ other).mp listed
      rw [Store.getValidatorByConsAddr, listed, Option.bind_some, Store.getValidator, found] at free
      cases free
    refine Lists.update sound.consAddr v.operatorAddress (some v)
      (fun addr => by rw [validators, get_set]) ?_ ?_
    · rintro c _ ⟨⟩ rfl
      refine ⟨by rw [byCons, get_set_self], fun addr w found same => ?_⟩
      exact absurd ((sound.consAddr _ addr).mpr ⟨w, found, same⟩) (unlisted addr)
    · intro c other addr
      rw [byCons, get_set, if_neg fun same => other v rfl same.symm]
      exact (and_iff_right_of_imp (Lists.ne_of_absent sound.consAddr absent)).symm
  power := by
    refine Lists.update sound.power v.operatorAddress (some v)
      (fun addr => by rw [validators, get_set]) ?_ ?_
    · rintro key _ ⟨⟩ ⟨-, rfl⟩
      refine ⟨(atPower _ rfl).trans (if_pos rfl), fun addr w found same => ?_⟩
      exact sound.at_powerKey found same.2
    intro key other addr
    by_cases owner : (ofLex key).2 = OrderDual.toDual v.operatorAddress
    · rw [atPower key owner, if_neg fun same => other v rfl ⟨unjailed, same.symm⟩]
      refine iff_of_false (by simp) ?_
      rintro ⟨differ, listed⟩
      obtain ⟨w, found, -, rfl⟩ := (sound.power key addr).mp listed
      exact differ ((sound.operator addr w found).symm.trans owner)
    · rw [byPower key owner]
      exact (and_iff_right_of_imp (Lists.ne_of_absent sound.power absent)).symm
  tally := by
    simp only [validators, Store.sharesOn, shares]
    refine forall_set ?_ fun addr _ => sound.tally addr
    have nothing : s.sharesOn v.operatorAddress = 0 := by
      apply sum_eq_zero
      intro key x entry
      rw [if_neg]
      intro atVal
      obtain ⟨_, at_val⟩ := sound.shares_val key x entry
      rw [atVal, absent] at at_val
      cases at_val
    rw [← Store.sharesOn, nothing, add_zero]
    exact own
  shares_pos := by
    rw [shares]
    exact sound.shares_pos
  shares_val key x found := by
    rw [shares] at found
    obtain ⟨w, at_val⟩ := sound.shares_val key x found
    rw [validators, get_set]
    split
    · exact ⟨v, rfl⟩
    · exact ⟨w, at_val⟩

variable [Fintype Denom] {chain : Chain Denom} {ctx ctx' : Context Denom}

theorem Tend.accounts (tend : Tend chain ctx ctx') :
    ctx'.staking.accounts = ctx.staking.accounts := by
  cases tend with
  | restate restated => exact restated.accounts
  | remove found _ _ done =>
    obtain ⟨-, staking, -⟩ := removeValidator_ok done found
    rw [staking]
    rfl

theorem Tended.accounts (tended : Tended chain ctx ctx') :
    ctx'.staking.accounts = ctx.staking.accounts := by
  induction tended with
  | refl => rfl
  | tail _ tend ih => exact tend.accounts.trans ih

/-- What the life of the validators leaves alone besides the stakes: all but the rewards of removed
validators. -/
theorem Tend.context (tend : Tend chain ctx ctx') :
    ctx'.header = ctx.header ∧ ctx'.events = ctx.events ∧ ctx'.consensusSet = ctx.consensusSet ∧
      RewardsMoved ctx.funds ctx'.funds := by
  cases tend with
  | restate restated =>
    refine ⟨restated.header, restated.events, restated.consensusSet, ?_⟩
    rw [restated.funds]
    exact RewardsMoved.refl _
  | remove found _ _ done =>
    obtain ⟨-, -, header, events, set, -, paid⟩ := removeValidator_ok done found
    exact ⟨header, events, set, Distribution.afterValidatorRemoved_moved paid⟩

theorem Tended.context (tended : Tended chain ctx ctx') :
    ctx'.header = ctx.header ∧ ctx'.events = ctx.events ∧ ctx'.consensusSet = ctx.consensusSet ∧
      RewardsMoved ctx.funds ctx'.funds := by
  induction tended with
  | refl => exact ⟨rfl, rfl, rfl, RewardsMoved.refl _⟩
  | tail _ tend ih =>
    obtain ⟨header, events, set, rewards⟩ := ih
    obtain ⟨header', events', set', rewards'⟩ := tend.context
    exact ⟨header'.trans header, events'.trans events, set'.trans set, rewards.trans rewards'⟩

theorem Tended.books (tended : Tended chain ctx ctx') (books : Books ctx.staking) :
    Books ctx'.staking :=
  books.of_accounts (tended.sound books.sound) tended.accounts

/-- The beginning of a block: after the header and the funds changed, only the life of the
validators does. -/
theorem beginBlocker_kept {elapsed : Nat} {votes : List VoteInfo} {evidence : List Equivocation}
    (sound : Sound ctx.staking)
    (done : beginBlocker chain ctx elapsed votes evidence = .ok ctx') :
    ∃ funds, allocateFees chain ⟨ctx.header.height + 1, ctx.header.time + elapsed⟩ ctx votes =
        .ok funds ∧
      Kept chain { ctx with
        header := ⟨ctx.header.height + 1, ctx.header.time + elapsed⟩, funds } ctx' := by
  obtain ⟨funds, allocated, done⟩ := bind_eq_ok.mp done
  obtain ⟨ctx₁, voted, done⟩ := bind_eq_ok.mp done
  refine ⟨funds, allocated, ?_⟩
  have first : Kept chain { ctx with
      header := ⟨ctx.header.height + 1, ctx.header.time + elapsed⟩, funds } ctx₁ :=
    kept_loop (fun vote _ ctx ctx' sound once => handleValidatorSignature_kept sound once) sound voted
  exact first.trans (kept_loop
    (fun evidence _ ctx ctx' sound once => handleDoubleSign_kept sound once)
    (first.tended.sound sound) done)

structure Rewarded (ctx ctx' : Context Denom) : Prop where
  same : ctx' = { ctx with funds := ctx'.funds }
  rewards : RewardsMoved ctx.funds ctx'.funds

omit [Fintype Denom] in
theorem Rewarded.refl (ctx : Context Denom) : Rewarded ctx ctx := ⟨rfl, RewardsMoved.refl _⟩

omit [Fintype Denom] in
theorem Rewarded.trans {ctx'' : Context Denom} (first : Rewarded ctx ctx')
    (second : Rewarded ctx' ctx'') : Rewarded ctx ctx'' := by
  refine ⟨?_, first.rewards.trans second.rewards⟩
  rw [second.same, first.same]

variable {addr del : Address}

theorem takeOutstanding_settings {header : Header} {d d' : Distribution.Store Denom}
    {commission : Coins Denom} (done : takeOutstanding chain header d addr commission = .ok d') :
    d'.settings = d.settings := by
  unfold takeOutstanding at done
  split at done
  · obtain ⟨_, done⟩ := of_bind done
    obtain ⟨_, done⟩ := of_bind done
    cases done
    rfl
  · cases done
    rfl

theorem handleMsgWithdrawValidatorCommission_ok
    (done : handleMsgWithdrawValidatorCommission chain ctx addr = .ok ctx') : Rewarded ctx ctx' := by
  obtain ⟨_, done⟩ := of_bind done
  obtain ⟨_, taken, done⟩ := bind_eq_ok.mp done
  obtain ⟨_, paid, done⟩ := bind_eq_ok.mp done
  cases done
  refine ⟨rfl, ?_⟩
  have settings := takeOutstanding_settings taken
  exact (RewardsMoved.of_distr settings).trans (Distribution.payCoins_moved (hideError_eq_ok.mp paid))

theorem withdrawAndRestart_ok
    (done : withdrawAndRestart chain ctx del v = .ok ctx') : Rewarded ctx ctx' := by
  obtain ⟨_, withdrawn, done⟩ := bind_eq_ok.mp done
  obtain ⟨_, restarted, done⟩ := bind_eq_ok.mp done
  cases done
  exact ⟨rfl, (Distribution.withdrawDelegationRewards_moved withdrawn).trans
    (RewardsMoved.of_distr (Distribution.initializeDelegation_settings restarted))⟩

theorem handleMsgWithdrawDelegatorReward_ok
    (done : handleMsgWithdrawDelegatorReward chain ctx del addr = .ok ctx') : Rewarded ctx ctx' := by
  obtain ⟨_, done⟩ := of_bind done
  obtain ⟨_, done⟩ := of_bind done
  obtain ⟨_, done⟩ := of_bind done
  exact withdrawAndRestart_ok done

theorem handleMsgWithdrawDelegatorAllRewards_ok
    (done : handleMsgWithdrawDelegatorAllRewards chain ctx del = .ok ctx') : Rewarded ctx ctx' := by
  obtain ⟨_, done⟩ := of_bind done
  obtain ⟨_, done⟩ := of_bind done
  refine Fallible.foldlM_within Rewarded.refl Rewarded.trans (fun addr _ ctx ctx' once => ?_) done
  obtain ⟨_, once⟩ := of_bind once
  exact withdrawAndRestart_ok once

variable [DecidableEq Denom]

def createdValidator (ctx : Context Denom) (addr : Address) (cons : ConsAddress) : Validator :=
  { newValidator addr cons ctx.staking.params.minSelfDelegation with
    delegatorShares := one }

variable {del : Address} {msg : Msg Denom}

/-- What is left of a validator that withdraws its own stake. -/
def Validator.dismissed (v : Validator) : Validator :=
  { v with
    minSelfDelegation := 0, jailed := true, delegatorShares := v.delegatorShares - one }

omit [DecidableEq Denom] in
theorem dismissValidator_ok (sound : Sound ctx.staking)
    (stored : ctx.staking.validators.get v.operatorAddress = some v) (own : v.minSelfDelegation ≠ 0)
    (done : dismissValidator chain ctx { v with minSelfDelegation := 0, jailed := true }
      (v.delegatorShares - one) = .ok ctx') :
    Sound ctx'.staking ∧ ctx'.staking.accounts = ctx.staking.accounts ∧
    ctx'.header = ctx.header ∧ ctx'.events = ctx.events ∧ ctx'.consensusSet = ctx.consensusSet ∧
    ((v.status = .unbonded ∧ v.delegatorShares = one ∧
        ctx'.staking.validators = ctx.staking.validators.delete v.operatorAddress ∧
        removeValidator chain ctx v.operatorAddress = .ok ctx') ∨
      ctx'.staking.validators = ctx.staking.validators.set v.operatorAddress v.dismissed ∧
        ctx'.funds = ctx.funds) := by
  have ownShare : v.ownShare = one := if_neg own
  unfold dismissValidator at done
  split at done
  · rename_i removable
    simp only [Bool.and_eq_true, decide_eq_true_eq] at removable
    have all : v.delegatorShares = one := sub_eq_zero.mp removable.2
    obtain ⟨unbonded, staking, header, events, set, -, _⟩ := removeValidator_ok done stored
    refine ⟨removeValidator_sound sound stored (all.trans ownShare.symm) done, ?_, header, events, set,
      .inl ⟨unbonded, all, ?_, done⟩⟩
    all_goals
      rw [staking]
      rfl
  obtain ⟨ctx₁, abandoned, done⟩ := bind_eq_ok.mp done
  cases done
  have same : ∃ abandonedAddrs, ctx₁ = { ctx with staking := { ctx.staking with
      abandonedValidatorAddrs := abandonedAddrs } } := by
    unfold abandonIfBonded at abandoned
    split at abandoned
    · obtain ⟨_, abandoned⟩ := of_bind abandoned
      cases abandoned
      exact ⟨_, rfl⟩
    · cases abandoned
      exact ⟨_, rfl⟩
  obtain ⟨_, rfl⟩ := same
  refine ⟨?_, rfl, rfl, rfl, rfl, .inr ⟨rfl, rfl⟩⟩
  apply sound.replace v.dismissed stored
  · rfl
  · rfl
  · rfl
  · rfl
  · intro key
    exact get_delete _ _ _
  · intro _ _
    rfl
  · change v.delegatorShares - one = (if (0 : Dec) = 0 then 0 else one) + _
    rw [if_pos rfl, zero_add, sound.tally _ v stored, ownShare]
    exact add_sub_cancel_left _ _
  · exact sound.shares_pos
  · intro key x found
    exact .inr ⟨x, found⟩

/-- When a stake that is withdrawn now is paid. -/
def Context.completionTime (ctx : Context Denom) : Time :=
  ctx.header.time + ctx.staking.params.unbondingTime

/-- The store after the own stake of a validator became the undelegation of the account. -/
def Store.overwriteUndelegation (s : Store) (del : Address) (quantity : Dec) (completionTime : Time) :
    Store :=
  (s.setUndelegating ⟨del, quantity, completionTime⟩).setAddrByTimeKeyWithNilValue completionTime del

/-- The books are kept, and every delegator's shares are those it had or the weight of its tokens.
-/
structure Accounted (chain : Chain Denom) (ctx ctx' : Context Denom) : Prop where
  books : Books ctx'.staking
  weighed : Weighed chain ctx'.header ctx.staking ctx'.staking none

omit [Fintype Denom] [DecidableEq Denom] in
theorem Accounted.of_delegators (books : Books ctx'.staking)
    (same : ctx'.staking.delegators = ctx.staking.delegators) : Accounted chain ctx ctx' where
  books := books
  weighed _ d found _ _ := .inl ⟨d, same ▸ found, rfl⟩

omit [DecidableEq Denom] in
theorem Tended.accounted (tended : Tended chain ctx ctx') (books : Books ctx.staking) :
    Accounted chain ctx ctx' :=
  Accounted.of_delegators (tended.books books) (congrArg (·.delegators) tended.accounts :)

omit [DecidableEq Denom] [Fintype Denom] in
theorem Midway.accounted {start : Context Denom} {added : Dec}
    (midway : Midway chain start (fun _ => 0) none added ctx')
    (staking : start.staking = ctx.staking) : Accounted chain ctx ctx' where
  books := midway.books
  weighed := by
    rw [midway.header, ← staking]
    exact midway.weighed

theorem addUndelegation_eq (s : Store) (del : Address) (quantity : Dec) (completionTime : Time) :
    ∃ undelegations queue, s.addUndelegation del quantity completionTime =
      { s with undelegations := undelegations, undelegateQueue := queue } := by
  unfold Store.addUndelegation
  split
  all_goals exact ⟨_, _, rfl⟩

theorem Books.of_undelegations {s : Store} (books : Books s)
    (undelegations : SortedMap Address UndelegationInfo) (queue : SortedMap (Time ×ₗ Address) Unit) :
    Books { s with undelegations := undelegations, undelegateQueue := queue } :=
  ⟨books.sound.of_same rfl rfl rfl rfl, books.chosen.of_same rfl rfl, books.proxied.of_same rfl rfl⟩

def PoolsKept (f f' : Funds Denom) : Prop :=
  f'.bank .bondedPool = f.bank .bondedPool ∧ f'.bank .notBondedPool = f.bank .notBondedPool

omit [Fintype Denom] [DecidableEq Denom] in
theorem PoolsKept.of_rewards {f f' : Funds Denom} (rewards : RewardsMoved f f') : PoolsKept f f' :=
  ⟨rewards.pools _ (by simp) (by simp), rewards.pools _ (by simp) (by simp)⟩

/-- What a message that succeeds can do. -/
inductive Effect (chain : Chain Denom) (ctx : Context Denom) : Msg Denom → Context Denom → Prop where
  | created {del addr : Address} {cons : ConsAddress} {amount : Denom × Dec} {ctx' : Context Denom}
      {funds : Funds Denom} (absent : ctx.staking.validators.get addr = none)
      (sound : Sound ctx'.staking) (accounts : ctx'.staking.accounts = ctx.staking.accounts)
      (validators : ctx'.staking.validators =
        ctx.staking.validators.set addr (createdValidator ctx addr cons))
      (seated : Seated ctx.staking ctx'.staking)
      (header : ctx'.header = ctx.header) (events : ctx'.events = ctx.events)
      (consensusSet : ctx'.consensusSet = ctx.consensusSet)
      (sent : ctx.funds.sendCoins (.user del) .bondedPool
        (bondCoins chain ctx.staking.params.minSelfDelegation) = .ok funds)
      (hooked : ctx'.funds = Distribution.afterValidatorCreated chain ctx.header funds addr) :
      Effect chain ctx (.createValidator del addr cons amount) ctx'
  | edited {addr : Address} {rate : Dec} {v : Validator} {commission : Commission}
      (found : ctx.staking.validators.get addr = some v)
      (sound : Sound (ctx.staking.setValidator { v with commission })) :
      Effect chain ctx (.editValidatorCommissionRate addr rate)
        { ctx with staking := ctx.staking.setValidator { v with commission } }
  | deposited {del : Address} {amount : Denom × Dec} {ctx' : Context Denom} {funds : Funds Denom}
      (sent : ctx.funds.sendCoins (.user del) .bondedPool (bondCoins chain amount.2) = .ok funds)
      (midway : Midway chain { ctx with funds } (fun _ => 0) none amount.2 ctx') :
      Effect chain ctx (.deposit del amount) ctx'
  | withdrawn {del : Address} {amount : Denom × Dec} {mid : Context Denom} {funds : Funds Denom}
      (positive : 0 < amount.2)
      (sent : ctx.funds.sendCoins .bondedPool .notBondedPool (bondCoins chain amount.2) = .ok funds)
      (midway : Midway chain { ctx with funds } (fun _ => 0) none (-amount.2) mid) :
      Effect chain ctx (.withdraw del amount) (Context.emit
        { mid with staking := mid.staking.addUndelegation del amount.2 ctx.completionTime }
        (.unbond ctx.header.time del amount.2 ctx.completionTime))
  | reshared {msg : Msg Denom} {ctx' : Context Denom}
      (midway : Midway chain ctx (fun _ => 0) none 0 ctx') : Effect chain ctx msg ctx'
  | destroyed {del : Address} {v : Validator} {funds : Funds Denom} {slashing : SlashingStore}
      {after : Context Denom} (found : ctx.staking.validators.get del = some v)
      (own : v.minSelfDelegation ≠ 0)
      (sent : ctx.funds.sendCoins .bondedPool .notBondedPool (bondCoins chain v.minSelfDelegation) =
        .ok funds)
      (dismissed : dismissValidator chain { ctx with
          staking := ctx.staking.overwriteUndelegation del v.minSelfDelegation ctx.completionTime
          slashing, funds } { v with minSelfDelegation := 0, jailed := true }
        (v.delegatorShares - one) = .ok after) :
      Effect chain ctx (.destroyValidator del)
        (after.emit (.unbond ctx.header.time del v.minSelfDelegation ctx.completionTime))
  | freed {addr : Address} {ctx' : Context Denom} (restated : Restated ctx ctx')
      (seated : Seated ctx.staking ctx'.staking) : Effect chain ctx (.unjail addr) ctx'
  | paid {msg : Msg Denom} {ctx' : Context Denom} (same : ctx' = { ctx with funds := ctx'.funds })
      (pools : PoolsKept ctx.funds ctx'.funds) : Effect chain ctx msg ctx'

omit [DecidableEq Denom] in
theorem Rewarded.effect [DecidableEq Denom] (rewarded : Rewarded ctx ctx') :
    Effect chain ctx msg ctx' :=
  .paid rewarded.same (PoolsKept.of_rewards rewarded.rewards)

variable (sound : Sound ctx.staking)
include sound

theorem handleMsgEditValidatorCommissionRate_effect {rate : Dec}
    (done : handleMsgEditValidatorCommissionRate ctx addr rate = .ok ctx') :
    Effect chain ctx (.editValidatorCommissionRate addr rate) ctx' := by
  obtain ⟨v, looked, done⟩ := bind_eq_ok.mp done
  obtain ⟨_, done⟩ := of_bind done
  cases done
  have found : ctx.staking.validators.get addr = some v := orErr_eq_ok.mp looked
  have stored := (sound.operator addr v found).symm ▸ found
  refine .edited found ?_
  apply sound.restate { v with
    commission := { v.commission with rate := rate, updateTime := ctx.header.time } } stored
  · rfl
  · rfl
  · rfl
  · rfl
  · exact sound.power_same stored rfl rfl

theorem handleMsgCreateValidator_effect {cons : ConsAddress} {amount : Denom × Dec}
    (done : handleMsgCreateValidator chain ctx del addr cons amount.1 = .ok ctx') :
    Effect chain ctx (.createValidator del addr cons amount) ctx' := by
  obtain ⟨_, absent, done⟩ := bind_eq_ok.mp done
  obtain ⟨_, free, done⟩ := bind_eq_ok.mp done
  obtain ⟨_, done⟩ := of_bind done
  obtain ⟨funds, sent, done⟩ := bind_eq_ok.mp done
  cases done
  have absent : ctx.staking.validators.get addr = none := require_eq_ok.mp absent
  have share : (newValidator addr cons ctx.staking.params.minSelfDelegation).delegatorShares +
      one = one := zero_add _
  have own : (createdValidator ctx addr cons).ownShare = one :=
    if_neg ctx.staking.params.minSelfDelegation_pos.ne'
  rw [share]
  set v := newValidator addr cons ctx.staking.params.minSelfDelegation with created
  set s := ((ctx.staking.setValidator v).setValidatorByConsAddr v).setNewValidatorByPowerIndex v
    with written
  have validators : (s.moveShares v one).validators =
      ctx.staking.validators.set addr (createdValidator ctx addr cons) := by
    exact set_set _ _ _ _
  have byPower : ∀ key, (s.moveShares v one).validatorsByPower.get key =
      if key = (createdValidator ctx addr cons).powerKey then some addr
      else if key = v.powerKey then none else ctx.staking.validatorsByPower.get key := by
    intro key
    have moved := get_setValidatorByPowerIndex s v { v with delegatorShares := one } key rfl
    refine Eq.trans moved ?_
    change (if false = false ∧ key = (createdValidator ctx addr cons).powerKey then some addr
      else if key = v.powerKey then none
      else (ctx.staking.validatorsByPower.set v.powerKey addr).get key) = _
    simp only [true_and]
    split
    · rfl
    split
    · rfl
    · rename_i other
      exact get_set_ne _ _ other
  refine .created absent ?_ ?_ validators ?_ rfl rfl rfl sent rfl
  · apply sound.create (v := createdValidator ctx addr cons) absent (require_eq_ok.mp free) rfl
      own.symm validators
    · rfl
    · intro key elsewhere
      refine (byPower key).trans ?_
      rw [if_neg, if_neg]
      all_goals
        rintro rfl
        exact elsewhere rfl
    · intro key owner
      refine (byPower key).trans ?_
      split
      · rfl
      split
      · rfl
      cases entry : ctx.staking.validatorsByPower.get key with
      | none => rfl
      | some other =>
        obtain ⟨w, found, -, atKey⟩ := (sound.power key other).mp entry
        rw [← atKey] at owner
        have address := sound.operator other w found
        have second : w.operatorAddress = addr := owner
        rw [← address, second, absent] at found
        cases found
    · rfl
  · exact moveShares_accounts s v one
  · have same := moveShares_frame s v one
    refine ⟨fun other => ?_, (congrArg (·.lastValidatorPower) same :),
      (congrArg (·.lastTotalPower) same :), (congrArg (·.params) same :)⟩
    rw [seat_set validators]
    split
    · rename_i here
      rw [here, seat_of_none absent]
      rfl
    · rfl

theorem handleMsgDestroyValidator_effect
    (done : handleMsgDestroyValidator chain ctx del = .ok ctx') :
    Effect chain ctx (.destroyValidator del) ctx' := by
  obtain ⟨v, looked, done⟩ := bind_eq_ok.mp done
  obtain ⟨⟨_, _⟩, withdrawn, done⟩ := bind_eq_ok.mp done
  cases done
  have found : ctx.staking.validators.get del = some v := orErr_eq_ok.mp looked
  have stored := (sound.operator del v found).symm ▸ found
  obtain ⟨_, own, withdrawn⟩ := bind_eq_ok.mp withdrawn
  obtain ⟨_, withdrawn⟩ := of_bind withdrawn
  obtain ⟨_, paid, withdrawn⟩ := bind_eq_ok.mp withdrawn
  obtain ⟨ctx₂, dismissed, withdrawn⟩ := bind_eq_ok.mp withdrawn
  obtain ⟨rfl, rfl⟩ := Prod.mk.inj (Except.ok.inj withdrawn)
  obtain ⟨funds, sent, paid⟩ := bind_eq_ok.mp paid
  cases paid
  have own := require_eq_ok.mp own
  obtain ⟨-, -, header, -⟩ := dismissValidator_ok (v := v) (by exact sound.of_same rfl rfl rfl rfl)
    (by exact stored) own dismissed
  change Effect chain ctx _
    (ctx₂.emit (.unbond ctx₂.header.time del v.minSelfDelegation ctx.completionTime))
  rw [header]
  exact .destroyed found own (panicOnError_eq_ok.mp sent) dismissed

omit sound in
theorem handleMsgWithdraw_effect {amount : Denom × Dec} (books : Books ctx.staking)
    (done : handleMsgWithdraw chain ctx del amount.1 amount.2 = .ok ctx') :
    Effect chain ctx (.withdraw del amount) ctx' := by
  obtain ⟨_, done⟩ := of_bind done
  obtain ⟨⟨_, _⟩, withdrawn, done⟩ := bind_eq_ok.mp done
  cases done
  obtain ⟨least, rfl, funds, mid, sent, midway, rfl⟩ := withdraw_ok books withdrawn
  have positive := lt_of_lt_of_le ctx.staking.params.minDelegation_pos least
  have header : mid.header = ctx.header := midway.header
  have effect : Effect chain ctx (.withdraw del amount) _ := .withdrawn positive sent midway
  rw [← header] at effect
  exact effect

theorem handleMsgUnjail_effect
    (done : handleMsgUnjail ctx addr = .ok ctx') : Effect chain ctx (.unjail addr) ctx' := by
  obtain ⟨_, done⟩ := of_bind done
  obtain ⟨_, done⟩ := of_bind done
  obtain ⟨_, done⟩ := of_bind done
  obtain ⟨_, done⟩ := of_bind done
  obtain ⟨_, done⟩ := of_bind done
  obtain ⟨_, done⟩ := of_bind done
  obtain ⟨_, done⟩ := of_bind done
  obtain ⟨_, looked, done⟩ := bind_eq_ok.mp done
  have stored := (mustGetValidatorByConsAddr_ok sound looked).1
  exact .freed (unjailValidator_ok sound stored done) (unjailValidator_seated stored done)

omit sound in
theorem dispatch_effect (books : Books ctx.staking)
    (valid : msg.validateBasic = none) (done : dispatch chain ctx msg = .ok ctx') :
    Effect chain ctx msg ctx' := by
  cases msg with
  | createValidator => exact handleMsgCreateValidator_effect books.sound done
  | editValidatorCommissionRate =>
    simp only [dispatch] at done
    split at done
    · exact handleMsgEditValidatorCommissionRate_effect books.sound done
    · cases done
  | deposit =>
    obtain ⟨_, done⟩ := of_bind done
    obtain ⟨_, sent, midway⟩ := delegate_ok books done
    exact .deposited sent midway
  | withdraw => exact handleMsgWithdraw_effect books done
  | addShares del vals =>
    have distinct : vals.Nodup := by
      simp only [Msg.validateBasic] at valid
      by_contra duplicate
      split at valid
      · cases valid
      cases valid
    exact .reshared (handleMsgAddShares_ok books distinct done)
  | bindProxy del proxy =>
    have differ : del ≠ proxy := by
      intro same
      simp only [Msg.validateBasic, if_pos same] at valid
      cases valid
    exact .reshared (handleMsgBindProxy_ok books differ done)
  | unbindProxy del => exact .reshared (unbindProxy_ok (Books.midway chain books) done).1
  | regProxy =>
    simp only [dispatch] at done
    split at done
    · exact .reshared (regProxy_ok books done)
    · exact .reshared (unregProxy_ok books done)
  | destroyValidator del => exact handleMsgDestroyValidator_effect books.sound done
  | unjail addr => exact handleMsgUnjail_effect books.sound done
  | setWithdrawAddress =>
    simp only [dispatch, handleMsgModifyWithdrawAddress] at done
    split at done
    · cases done
    cases done
    exact .paid rfl ⟨rfl, rfl⟩
  | withdrawValidatorCommission addr =>
    exact (handleMsgWithdrawValidatorCommission_ok done).effect
  | withdrawDelegatorReward =>
    simp only [dispatch] at done
    split at done
    · exact (handleMsgWithdrawDelegatorReward_ok done).effect
    · cases done
  | withdrawDelegatorAllRewards del =>
    simp only [dispatch] at done
    split at done
    · exact (handleMsgWithdrawDelegatorAllRewards_ok done).effect
    · cases done

omit [DecidableEq Denom] in
theorem Effect.dismissed_ok {slashing : SlashingStore} {funds : Funds Denom} {after : Context Denom}
    (found : ctx.staking.validators.get del = some v) (own : v.minSelfDelegation ≠ 0)
    (dismissed : dismissValidator chain { ctx with
        staking := ctx.staking.overwriteUndelegation del v.minSelfDelegation ctx.completionTime
        slashing, funds } { v with minSelfDelegation := 0, jailed := true }
      (v.delegatorShares - one) = .ok after) :
    Sound after.staking ∧
    after.staking.accounts = (ctx.staking.overwriteUndelegation del v.minSelfDelegation
      ctx.completionTime).accounts ∧
    after.header = ctx.header ∧ after.events = ctx.events ∧ after.consensusSet = ctx.consensusSet ∧
    RewardsMoved funds after.funds ∧
    ((v.status = .unbonded ∧ after.staking.validators = ctx.staking.validators.delete del) ∨
      after.staking.validators = ctx.staking.validators.set del v.dismissed) := by
  have operator := sound.operator del v found
  obtain ⟨kept, accounts, header, events, set, outcome⟩ := dismissValidator_ok (v := v)
    (by exact sound.of_same rfl rfl rfl rfl) (by exact operator.symm ▸ found) own dismissed
  rw [operator] at outcome
  refine ⟨kept, accounts, header, events, set, ?_⟩
  rcases outcome with ⟨unbonded, -, validators, removed⟩ | ⟨validators, same⟩
  · obtain ⟨-, -, -, -, -, -, paid⟩ := removeValidator_ok removed (v := v) found
    exact ⟨Distribution.afterValidatorRemoved_moved paid, .inl ⟨unbonded, validators⟩⟩
  · refine ⟨?_, .inr validators⟩
    rw [same]
    exact RewardsMoved.refl _

omit sound

theorem Effect.accounted (books : Books ctx.staking)
    (effect : Effect chain ctx msg ctx') : Accounted chain ctx ctx' := by
  cases effect with
  | created absent sound accounts =>
    exact Accounted.of_delegators (books.of_accounts sound accounts)
      (congrArg (·.delegators) accounts :)
  | edited found sound => exact Accounted.of_delegators (books.of_accounts sound rfl) rfl
  | deposited sent midway => exact midway.accounted rfl
  | @withdrawn del amount mid funds positive sent midway =>
    obtain ⟨_, _, same⟩ :=
      addUndelegation_eq mid.staking del amount.2 ctx.completionTime
    rw [same]
    have kept : Accounted chain ctx mid := midway.accounted rfl
    exact ⟨kept.books.of_undelegations _ _, kept.weighed⟩
  | reshared midway => exact midway.accounted rfl
  | destroyed found own sent dismissed =>
    obtain ⟨sound, accounts, -⟩ := dismissed_ok books.sound found own dismissed
    exact Accounted.of_delegators ((books.of_undelegations _ _).of_accounts sound accounts)
      (congrArg (·.delegators) accounts :)
  | freed restated =>
    have tended : Tended chain ctx ctx' := restated.tended
    exact tended.accounted books
  | paid same =>
    rw [same]
    exact Accounted.of_delegators books rfl

theorem Effect.header (books : Books ctx.staking)
    (effect : Effect chain ctx msg ctx') : ctx'.header = ctx.header := by
  cases effect with
  | created _ _ _ _ _ header => exact header
  | edited => rfl
  | deposited sent midway => exact midway.header
  | withdrawn _ _ midway => exact midway.header
  | reshared midway => exact midway.header
  | destroyed found own sent dismissed =>
    exact (dismissed_ok books.sound found own dismissed).2.2.1
  | freed restated => exact restated.header
  | paid same => rw [same]

/-- Paying undelegations touches the undelegations, the funds and the events. -/
theorem completeMature_same (chain : Chain Denom) (ctx : Context Denom) (key : Time × Address) :
    ∃ undelegations queue funds events, completeMature chain ctx key = { ctx with
      staking := { ctx.staking with undelegations := undelegations, undelegateQueue := queue }
      funds, events } := by
  unfold completeMature
  simp only
  split
  · rename_i paid quantity completed
    obtain ⟨_, completed⟩ := of_bind completed
    obtain ⟨_, completed⟩ := of_bind completed
    obtain ⟨rfl, -⟩ := Prod.mk.inj (Except.ok.inj completed)
    exact ⟨_, _, _, _, rfl⟩
  · exact ⟨_, _, _, _, rfl⟩

theorem completeMatureUndelegations_same (chain : Chain Denom) (ctx : Context Denom) :
    ∃ undelegations queue funds events, completeMatureUndelegations chain ctx = { ctx with
      staking := { ctx.staking with undelegations := undelegations, undelegateQueue := queue }
      funds, events } := by
  have loop : ∀ (keys : List (Time × Address)) (ctx : Context Denom),
      ∃ undelegations queue funds events, keys.foldl (completeMature chain) ctx = { ctx with
        staking := { ctx.staking with undelegations := undelegations, undelegateQueue := queue }
        funds, events } := by
    intro keys
    induction keys with
    | nil => exact fun ctx => ⟨_, _, _, _, rfl⟩
    | cons key rest ih =>
      intro ctx
      obtain ⟨_, _, _, _, first⟩ := completeMature_same chain ctx key
      obtain ⟨undelegations, queue, funds, events, same⟩ := ih (completeMature chain ctx key)
      exact ⟨undelegations, queue, funds, events, by rw [List.foldl_cons, same, first]⟩
  exact loop _ ctx

/-- The end of a block: the validators are tended to, then the mature undelegations are paid. -/
theorem endBlocker_tended {updates : List ValidatorUpdate} (sound : Sound ctx.staking)
    (done : endBlocker chain ctx = .ok (ctx', updates)) :
    ∃ mid, Tended chain ctx mid ∧ ctx' = completeMatureUndelegations chain mid := by
  obtain ⟨⟨ctx₁, _⟩, updated, done⟩ := bind_eq_ok.mp done
  obtain ⟨ctx₂, unbonded, done⟩ := bind_eq_ok.mp done
  obtain ⟨rfl, -⟩ := Prod.mk.inj (Except.ok.inj done)
  have first : Tended chain ctx ctx₁ := updateValidatorSet_tended sound updated
  have cleared : Tended chain ctx₁ { ctx₁ with staking := { ctx₁.staking with
      abandonedValidatorAddrs := [] } } := Tended.of_same (first.sound sound) rfl rfl rfl rfl
  have both := first.trans cleared
  exact ⟨ctx₂, both.trans (unbondAllMatureValidatorQueue_kept (both.sound sound) unbonded).tended, rfl⟩

omit [DecidableEq Denom] in
/-- The governance changes parameters and funds, and leaves the pools. -/
theorem handleProposal_same (chain : Chain Denom) (ctx : Context Denom) (proposal : Proposal Denom) :
    ∃ params funds, handleProposal chain ctx proposal =
        { ctx with staking := { ctx.staking with params := params }, funds } ∧
      PoolsKept ctx.funds funds := by
  have kept : PoolsKept ctx.funds ctx.funds := ⟨rfl, rfl⟩
  cases proposal with
  | changeParams params => exact ⟨params, _, rfl, kept⟩
  | changeDistributionType =>
    simp only [handleProposal, handleChangeDistributionTypeProposal]
    split <;> exact ⟨_, _, rfl, kept⟩
  | withdrawRewardEnabled | rewardTruncatePrecision =>
    simp only [handleProposal]
    split <;> exact ⟨_, _, rfl, kept⟩
  | communityPoolSpend =>
    simp only [handleProposal]
    split
    · rename_i spent done
      obtain ⟨_, done⟩ := of_bind done
      obtain ⟨_, sent, done⟩ := bind_eq_ok.mp done
      cases done
      have pools := PoolsKept.of_rewards (RewardsMoved.of_sendCoins sent)
      exact ⟨_, _, rfl, pools⟩
    · exact ⟨_, _, rfl, kept⟩

variable {op : Op Denom} (books : Books ctx.staking) (done : step chain ctx op = .ok ctx')

include books done

theorem step_accounted : Accounted chain ctx ctx' := by
  cases op with
  | beginBlock =>
    obtain ⟨_, -, tended, -⟩ := beginBlocker_kept books.sound done
    exact Accounted.of_delegators (tended.books books) (congrArg (·.delegators) tended.accounts :)
  | deliver msg =>
    cases done
    rcases deliver_cases chain ctx msg with failed | ⟨valid, handled⟩
    · rw [failed]
      exact Accounted.of_delegators books rfl
    · exact (dispatch_effect books valid handled).accounted books
  | endBlock =>
    obtain ⟨⟨_, _⟩, ended, done⟩ := bind_eq_ok.mp done
    cases done
    obtain ⟨mid, tended, rfl⟩ := endBlocker_tended books.sound ended
    obtain ⟨_, _, _, _, same⟩ := completeMatureUndelegations_same chain mid
    apply Accounted.of_delegators
    · rw [same]
      exact (tended.books books).of_undelegations _ _
    · rw [same]
      exact (congrArg (·.delegators) tended.accounts :)
  | govern proposal =>
    cases done
    obtain ⟨_, _, same, -⟩ := handleProposal_same chain ctx proposal
    apply Accounted.of_delegators
    · rw [same]
      exact ⟨books.sound.of_same rfl rfl rfl rfl, books.chosen.of_same rfl rfl,
        books.proxied.of_same rfl rfl⟩
    · rw [same]
  | others =>
    cases done
    exact Accounted.of_delegators books rfl

theorem step_header : ctx'.header = ctx.header ∨
      ∃ elapsed votes evidence, op = .beginBlock elapsed votes evidence ∧
        ctx'.header = ⟨ctx.header.height + 1, ctx.header.time + elapsed⟩ := by
  cases op with
  | beginBlock elapsed votes evidence =>
    obtain ⟨_, -, tended, -⟩ := beginBlocker_kept books.sound done
    exact .inr ⟨elapsed, votes, evidence, rfl, tended.context.1⟩
  | deliver msg =>
    cases done
    rcases deliver_cases chain ctx msg with failed | ⟨valid, handled⟩
    · exact .inl (by rw [failed])
    · exact .inl ((dispatch_effect books valid handled).header books)
  | endBlock =>
    obtain ⟨⟨_, _⟩, ended, done⟩ := bind_eq_ok.mp done
    cases done
    obtain ⟨mid, tended, rfl⟩ := endBlocker_tended books.sound ended
    obtain ⟨_, _, _, _, same⟩ := completeMatureUndelegations_same chain mid
    left
    rw [same]
    exact tended.context.1
  | govern proposal =>
    cases done
    obtain ⟨_, _, same, -⟩ := handleProposal_same chain ctx proposal
    exact .inl (by rw [same])
  | others =>
    cases done
    exact .inl rfl

end Exchain.Staking
