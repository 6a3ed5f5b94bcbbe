import Exchain.Staking.Accounting

namespace Exchain.Staking

open Distribution.Funds Option SortedMap Store Coins

open Distribution (Chain Header Funds Account RewardsMoved)
open Fallible (bind_eq_ok of_bind)

@[ext]
structure Ledger (Denom : Type) where
  surplus : Coins Denom
  notBonded : Coins Denom
  undelegations : SortedMap Address UndelegationInfo
  queue : SortedMap (Time ×ₗ Address) Unit
  events : List Event

def Store.selfStaked (s : Store) : Dec := s.validators.sum fun _ v => v.minSelfDelegation

variable {Denom : Type} [DecidableEq Denom]

def Context.ledger (chain : Chain Denom) (ctx : Context Denom) : Ledger Denom where
  surplus := ctx.funds.bank .bondedPool -
    bondCoins chain (ctx.staking.selfStaked + ctx.staking.delegated)
  notBonded := ctx.funds.bank .notBondedPool
  undelegations := ctx.staking.undelegations
  queue := ctx.staking.undelegateQueue
  events := ctx.events

/-- An amount enters the pool and the record of the account is written. -/
def Ledger.enter (chain : Chain Denom) (l : Ledger Denom) (now : Time) (del : Address) (amount : Dec)
    (info : UndelegationInfo) : Ledger Denom where
  surplus := l.surplus
  notBonded := l.notBonded + bondCoins chain amount
  undelegations := l.undelegations.set del info
  queue := l.queue.set (toLex (info.completionTime, del)) ()
  events := l.events ++ [.unbond now del amount info.completionTime]

/-- An amount that joins the record of the account, which then completes at the new time. -/
def Ledger.withdraw (chain : Chain Denom) (l : Ledger Denom) (now : Time) (del : Address) (amount : Dec)
    (completionTime : Time) : Ledger Denom :=
  match l.undelegations.get del with
  | none => l.enter chain now del amount ⟨del, amount, completionTime⟩
  | some old => Ledger.enter chain { l with queue := l.queue.delete (toLex (old.completionTime, del)) }
      now del amount ⟨del, old.quantity + amount, completionTime⟩

variable [Fintype Denom]

def Ledger.Keyed (l : Ledger Denom) : Prop :=
  ∀ addr info, l.undelegations.get addr = some info → info.delegatorAddress = addr

/-- A key of the queue is due. -/
def Ledger.pay (chain : Chain Denom) (now : Time) (l : Ledger Denom) (key : Time × Address) :
    Ledger Denom :=
  let l := { l with queue := l.queue.delete (toLex key) }
  match l.undelegations.get key.2 with
  | none => l
  | some info =>
    if (bondCoins chain info.quantity).IsValid ∧
        (l.notBonded - bondCoins chain info.quantity).IsValid then
      { l with
        notBonded := l.notBonded - bondCoins chain info.quantity
        undelegations := l.undelegations.delete key.2
        events := l.events ++ [.completeUnbonding now key.2 info.quantity] }
    else l

def Ledger.due (now : Time) (l : Ledger Denom) : List (Time × Address) :=
  (l.queue.keys.map ofLex).filter fun key => key.1 ≤ now

def Ledger.complete (chain : Chain Denom) (now : Time) (l : Ledger Denom) : Ledger Denom :=
  (l.due now).foldl (Ledger.pay chain now) l

section

omit [Fintype Denom]

theorem bondCoins_add (chain : Chain Denom) (a b : Dec) :
    bondCoins chain (a + b) = bondCoins chain a + bondCoins chain b := by
  simp [bondCoins, single_eq, Pi.single_add]

theorem bondCoins_neg (chain : Chain Denom) (a : Dec) : bondCoins chain (-a) = -bondCoins chain a := by
  simp [bondCoins, single_eq, Pi.single_neg]

@[simp] theorem bondCoins_zero (chain : Chain Denom) : bondCoins chain 0 = 0 := by
  simp [bondCoins, single_eq]

theorem bondCoins_nonneg {chain : Chain Denom} {a : Dec} : 0 ≤ bondCoins chain a ↔ 0 ≤ a := by
  rw [bondCoins, single_eq, Pi.single_nonneg]

theorem bondCoins_le {chain : Chain Denom} {a b : Dec} (le : a ≤ b) :
    bondCoins chain a ≤ bondCoins chain b := by
  simpa [bondCoins, single_eq] using le

theorem surplus_eq {chain : Chain Denom} {ctx ctx' : Context Denom} (amount : Dec)
    (staked : ctx'.staking.selfStaked + ctx'.staking.delegated =
      ctx.staking.selfStaked + ctx.staking.delegated + amount)
    (bonded : ctx'.funds.bank .bondedPool = ctx.funds.bank .bondedPool + bondCoins chain amount) :
    (ctx'.ledger chain).surplus = (ctx.ledger chain).surplus := by
  simp only [Context.ledger]
  rw [staked, bonded, bondCoins_add]
  abel

theorem selfStaked_reshared {s s' : Store}
    (reshared : ∀ addr, Reshared (s.validators.get addr) (s'.validators.get addr)) :
    s'.selfStaked = s.selfStaked := by
  apply sum_eq_of_get
  intro addr
  have here := reshared addr
  generalize s.validators.get addr = before at here
  generalize s'.validators.get addr = after at here
  cases here with
  | absent => rfl
  | moved v x => rfl
  | gone _ _ dismissed => exact dismissed.symm

end

omit [DecidableEq Denom] in
theorem Tend.selfStaked {chain : Chain Denom} {ctx ctx' : Context Denom} (tend : Tend chain ctx ctx') :
    ctx'.staking.selfStaked = ctx.staking.selfStaked := by
  cases tend with
  | restate restated =>
    apply sum_eq_of_get
    intro addr
    have core := restated.core addr
    generalize ctx.staking.validators.get addr = before at core
    generalize ctx'.staking.validators.get addr = after at core
    have same := congrArg (fun v : Option Validator => v.elim 0 (·.minSelfDelegation)) core
    rw [elim_map, elim_map] at same
    exact same
  | @remove addr v found bare dismissed done =>
    obtain ⟨-, staking, -⟩ := removeValidator_ok done found
    rw [staking]
    change (ctx.staking.validators.delete addr).sum _ = _
    rw [sum_delete]
    have found : ctx.staking.validators.get addr = some v := found
    rw [found, elim_some, dismissed, sub_zero]
    rfl

section

variable {chain : Chain Denom} {ctx ctx' : Context Denom} (tended : Tended chain ctx ctx')

include tended

omit [DecidableEq Denom] in
theorem Tended.selfStaked : ctx'.staking.selfStaked = ctx.staking.selfStaked := by
  induction tended with
  | refl => rfl
  | tail _ tend ih => exact tend.selfStaked.trans ih

/-- The life of the validators is no matter of the ledger. -/
theorem Tended.ledger : ctx'.ledger chain = ctx.ledger chain := by
  obtain ⟨-, events, -, rewards⟩ := tended.context
  have accounts := tended.accounts
  have delegators : ctx'.staking.delegators = ctx.staking.delegators :=
    (congrArg (·.delegators) accounts :)
  have undelegations : ctx'.staking.undelegations = ctx.staking.undelegations :=
    (congrArg (·.undelegations) accounts :)
  have queue : ctx'.staking.undelegateQueue = ctx.staking.undelegateQueue :=
    (congrArg (·.undelegateQueue) accounts :)
  obtain ⟨bonded, notBonded⟩ := PoolsKept.of_rewards rewards
  rw [Context.ledger, Context.ledger, tended.selfStaked, delegated, delegated, delegators,
    undelegations, queue, bonded, notBonded, events]

end

variable {chain : Chain Denom} {start ctx ctx' : Context Denom}

omit [Fintype Denom] in
/-- A message about delegators moves the stakes by what it adds. -/
theorem Midway.ledger {stale : Option Address} {short : Address → Dec} {added : Dec}
    (midway : Midway chain start short stale added ctx) : ctx.ledger chain =
      { start.ledger chain with surplus := (start.ledger chain).surplus - bondCoins chain added } := by
  obtain ⟨bonded, notBonded⟩ := PoolsKept.of_rewards midway.rewards
  refine Ledger.ext ?_ notBonded (congrArg (·.undelegations) midway.rest :)
    (congrArg (·.undelegateQueue) midway.rest :) midway.events
  change _ - bondCoins chain (ctx.staking.selfStaked + ctx.staking.delegated) = _ - _ - _
  rw [selfStaked_reshared midway.validators, midway.delegated, bonded, ← add_assoc, bondCoins_add,
    sub_add_eq_sub_sub]

omit [Fintype Denom] in
theorem ledger_addUndelegation {del : Address} {amount : Dec} {now completionTime : Time}
    (keyed : (ctx.ledger chain).Keyed) : (Context.emit
      { ctx with staking := ctx.staking.addUndelegation del amount completionTime }
      (.unbond now del amount completionTime)).ledger chain =
    { (ctx.ledger chain).withdraw chain now del amount completionTime with
      notBonded := (ctx.ledger chain).notBonded } := by
  unfold addUndelegation Ledger.withdraw getUndelegating
  simp only [Context.ledger]
  cases old : ctx.staking.undelegations.get del with
  | none => rfl
  | some info =>
    obtain rfl := keyed del info old
    rfl

omit [DecidableEq Denom] in
theorem unbonded_pools {f f' : Funds Denom} {coins : Coins Denom}
    (sent : f.sendCoins .bondedPool .notBondedPool coins = .ok f') :
    0 ≤ coins ∧ f'.bank .bondedPool = f.bank .bondedPool - coins ∧
      f'.bank .notBondedPool = f.bank .notBondedPool + coins := by
  obtain ⟨-, nonneg, -, balances⟩ := sendCoins_ok sent
  refine ⟨nonneg, ?_, ?_⟩
  all_goals
    rw [balances]
    simp

omit [DecidableEq Denom] in
theorem bonded_pools {f f' : Funds Denom} {addr : Address} {coins : Coins Denom}
    (sent : f.sendCoins (.user addr) .bondedPool coins = .ok f') :
    f'.bank .bondedPool = f.bank .bondedPool + coins ∧
      f'.bank .notBondedPool = f.bank .notBondedPool := by
  obtain ⟨-, -, -, balances⟩ := sendCoins_ok sent
  refine ⟨?_, ?_⟩
  all_goals
    rw [balances]
    simp

theorem Effect.ledger {msg : Msg Denom} (books : Books ctx.staking)
    (keyed : (ctx.ledger chain).Keyed) (effect : Effect chain ctx msg ctx') :
    ctx'.ledger chain = ctx.ledger chain ∨
    (∃ del amount, msg = .withdraw del amount ∧ 0 ≤ amount.2 ∧ ctx'.ledger chain =
        (ctx.ledger chain).withdraw chain ctx.header.time del amount.2 ctx.completionTime) ∨
    ∃ del quantity, msg = .destroyValidator del ∧ 0 ≤ quantity ∧
      ctx'.ledger chain = (ctx.ledger chain).enter chain ctx.header.time del quantity
        ⟨del, quantity, ctx.completionTime⟩ := by
  cases effect with
  | @created del addr cons amount _ funds absent sound accounts validators seated header events set sent hooked =>
    left
    obtain ⟨bonded, notBonded⟩ := bonded_pools sent
    have own : ctx'.staking.selfStaked =
        ctx.staking.selfStaked + ctx.staking.params.minSelfDelegation := by
      rw [selfStaked, validators, sum_set, absent, elim_none, sub_zero]
      rfl
    have delegated : ctx'.staking.delegated = ctx.staking.delegated :=
      (congrArg (·.delegated) accounts :)
    apply Ledger.ext
    · apply surplus_eq ctx.staking.params.minSelfDelegation
      · rw [own, delegated]
        ring
      · rw [hooked]
        exact bonded
    · change ctx'.funds.bank .notBondedPool = _
      rw [hooked]
      exact notBonded
    · exact (congrArg (·.undelegations) accounts :)
    · exact (congrArg (·.undelegateQueue) accounts :)
    · exact events
  | @edited addr rate v commission found sound =>
    left
    have operator := books.sound.operator addr v found
    apply Ledger.ext
    · apply surplus_eq 0
      · have same : (ctx.staking.setValidator { v with commission }).selfStaked =
            ctx.staking.selfStaked := by
          rw [selfStaked, setValidator, sum_set]
          rw [operator, found, elim_some, sub_add_cancel]
          rfl
        rw [same, add_zero]
        rfl
      · rw [bondCoins_zero, add_zero]
    all_goals rfl
  | @deposited del amount _ funds sent midway =>
    left
    obtain ⟨bonded, notBonded⟩ := bonded_pools sent
    rw [midway.ledger]
    simp only [Context.ledger, bonded, notBonded]
    congr 1
    abel
  | @withdrawn del amount mid funds positive sent midway =>
    refine .inr (.inl ⟨del, amount, rfl, positive.le, ?_⟩)
    obtain ⟨-, bonded, notBonded⟩ := unbonded_pools sent
    have same : mid.ledger chain = { ctx.ledger chain with
        notBonded := (ctx.ledger chain).notBonded + bondCoins chain amount.2 } := by
      rw [midway.ledger, bondCoins_neg]
      simp only [Context.ledger, bonded, notBonded]
      congr 1
      abel
    rw [ledger_addUndelegation (by rw [same]; exact keyed), same]
    unfold Ledger.withdraw
    dsimp only
    cases (ctx.ledger chain).undelegations.get del <;> rfl
  | reshared midway =>
    left
    rw [midway.ledger, bondCoins_zero, sub_zero]
  | @destroyed del v funds slashing after found own sent dismissed =>
    obtain ⟨nonneg, bonded, notBonded⟩ := unbonded_pools sent
    refine .inr (.inr ⟨del, v.minSelfDelegation, rfl, bondCoins_nonneg.mp nonneg, ?_⟩)
    obtain ⟨_, accounts, _, events, _, rewards, validators⟩ :=
      dismissed_ok books.sound found own dismissed
    obtain ⟨bonded', notBonded'⟩ := PoolsKept.of_rewards rewards
    have delegated : after.staking.delegated = ctx.staking.delegated :=
      (congrArg (·.delegated) accounts :)
    have selfStaked : after.staking.selfStaked = ctx.staking.selfStaked + -v.minSelfDelegation := by
      rcases validators with ⟨-, deleted⟩ | replaced
      · rw [selfStaked, deleted, sum_delete, found, elim_some,
          ← selfStaked, sub_eq_add_neg]
      · rw [selfStaked, replaced, sum_set, found, sub_eq_add_neg]
        exact add_zero _
    apply Ledger.ext
    · apply surplus_eq (-v.minSelfDelegation)
      · change after.staking.selfStaked + after.staking.delegated = _
        rw [selfStaked, delegated]
        ring
      · change after.funds.bank .bondedPool = _
        rw [bonded', bonded, bondCoins_neg, sub_eq_add_neg]
    · change after.funds.bank .notBondedPool = _
      rw [notBonded', notBonded]
      rfl
    · exact (congrArg (·.undelegations) accounts :)
    · exact (congrArg (·.undelegateQueue) accounts :)
    · change after.events ++ _ = _
      rw [events]
      rfl
  | freed restated => exact .inl (Restated.tended restated).ledger
  | paid same pools =>
    left
    have staking : ctx'.staking = ctx.staking := by rw [same]
    have events : ctx'.events = ctx.events := by rw [same]
    rw [Context.ledger, Context.ledger, staking, events, pools.1, pools.2]

omit [DecidableEq Denom] in
theorem allocateTokens_pools {header : Header} {staking : Store} {f f' : Funds Denom} {power : Int}
    {votes : List ConsAddress}
    (done : Distribution.allocateTokens chain header staking f power votes = .ok f') :
    PoolsKept f f' := by
  unfold Distribution.allocateTokens at done
  simp only at done
  split at done
  · cases done
    exact ⟨rfl, rfl⟩
  obtain ⟨f₁, sent, done⟩ := bind_eq_ok.mp done
  obtain ⟨-, -, -, balances⟩ := sendCoins_ok (panicOnError_eq_ok.mp sent)
  have kept : PoolsKept f f₁ := by
    refine ⟨?_, ?_⟩ <;>
    · rw [balances]
      simp
  split at done
  · cases done
    exact kept
  · obtain ⟨_, done⟩ := of_bind done
    cases done
    exact kept

/-- Paying one undelegation of the chain pays it in the ledger. -/
theorem completeMature_ledger (chain : Chain Denom) (ctx : Context Denom) (key : Time × Address) :
    (completeMature chain ctx key).ledger chain =
      (ctx.ledger chain).pay chain ctx.header.time key := by
  unfold completeMature Ledger.pay
  change _ = match ctx.staking.undelegations.get key.2 with | none => _ | some info => _
  cases found : ctx.staking.undelegations.get key.2 with
  | none =>
    have nothing : completeUndelegation chain
        { ctx with staking := ctx.staking.deleteAddrByTimeKey key.1 key.2 } key.2 =
        .error (.err .errNotInDelegating) := by
      change (orErr (ctx.staking.undelegations.get key.2) _ >>= _) = _
      rw [found]
      rfl
    simp only [nothing]
    rfl
  | some info =>
    have looked : completeUndelegation chain
        { ctx with staking := ctx.staking.deleteAddrByTimeKey key.1 key.2 } key.2 =
        (ctx.funds.sendCoins .notBondedPool (.user info.delegatorAddress)
          (bondCoins chain info.quantity) >>= fun funds => .ok
          ({ ctx with funds, staking := (ctx.staking.deleteAddrByTimeKey key.1
            key.2).deleteUndelegating key.2 }, info.quantity)) := by
      change (orErr (ctx.staking.undelegations.get key.2) _ >>= _) = _
      rw [found]
      rfl
    simp only [looked]
    cases sent : ctx.funds.sendCoins .notBondedPool (.user info.delegatorAddress)
        (bondCoins chain info.quantity) with
    | ok funds =>
      obtain ⟨-, nonneg, enough, balances⟩ := sendCoins_ok sent
      rw [if_pos ⟨(isValid_iff _).mpr nonneg,
        (isValid_iff _).mpr (sub_nonneg.mpr enough)⟩]
      apply Ledger.ext
      · change funds.bank .bondedPool - _ = ctx.funds.bank .bondedPool - _
        rw [balances]
        simp
        rfl
      · change funds.bank .notBondedPool = ctx.funds.bank .notBondedPool - _
        rw [balances]
        simp
      all_goals rfl
    | error failure =>
      rw [if_neg]
      · rfl
      rintro ⟨valid, enough⟩
      obtain ⟨_, succeeded⟩ := @sendCoins_succeeds _ _ ctx.funds
        .notBondedPool (.user info.delegatorAddress) _ ((isValid_iff _).mp valid)
        (sub_nonneg.mp ((isValid_iff _).mp enough))
      exact absurd (sent.symm.trans succeeded) (by simp)

theorem completeMatureUndelegations_ledger (chain : Chain Denom) (ctx : Context Denom) :
    (completeMatureUndelegations chain ctx).ledger chain =
      (ctx.ledger chain).complete chain ctx.header.time := by
  have loop : ∀ (keys : List (Time × Address)) (ctx : Context Denom),
      (keys.foldl (completeMature chain) ctx).ledger chain =
        keys.foldl (Ledger.pay chain ctx.header.time) (ctx.ledger chain) := by
    intro keys
    induction keys with
    | nil => exact fun ctx => rfl
    | cons key rest ih =>
      intro ctx
      obtain ⟨_, _, _, _, same⟩ := completeMature_same chain ctx key
      have header : (completeMature chain ctx key).header = ctx.header := by rw [same]
      rw [List.foldl_cons, List.foldl_cons, ih, completeMature_ledger, header]
  exact loop _ ctx

/-- What a step of the chain does to the ledger. -/
inductive LedgerMove (chain : Chain Denom) (ctx : Context Denom) : Op Denom → Ledger Denom → Prop where
  | none {op : Op Denom} : LedgerMove chain ctx op (ctx.ledger chain)
  | withdraw {del : Address} {amount : Denom × Dec} (nonneg : 0 ≤ amount.2) :
      LedgerMove chain ctx (.deliver (.withdraw del amount))
        ((ctx.ledger chain).withdraw chain ctx.header.time del amount.2 ctx.completionTime)
  | destroy {del : Address} {quantity : Dec} (nonneg : 0 ≤ quantity) :
      LedgerMove chain ctx (.deliver (.destroyValidator del))
        ((ctx.ledger chain).enter chain ctx.header.time del quantity
          ⟨del, quantity, ctx.completionTime⟩)
  | complete : LedgerMove chain ctx .endBlock ((ctx.ledger chain).complete chain ctx.header.time)

theorem beginBlocker_ledger {elapsed : Nat} {votes : List VoteInfo} {evidence : List Equivocation}
    (books : Books ctx.staking) (done : beginBlocker chain ctx elapsed votes evidence = .ok ctx') :
    ctx'.ledger chain = ctx.ledger chain := by
  obtain ⟨funds, allocated, tended, -⟩ := beginBlocker_kept books.sound done
  rw [tended.ledger]
  obtain ⟨bonded, notBonded⟩ : PoolsKept ctx.funds funds := by
    unfold allocateFees at allocated
    split at allocated
    · exact allocateTokens_pools allocated
    · cases allocated
      exact ⟨rfl, rfl⟩
  simp only [Context.ledger, bonded, notBonded]

/-- Every step of the chain is a move of the ledger. -/
theorem step_ledger {op : Op Denom} (books : Books ctx.staking) (keyed : (ctx.ledger chain).Keyed)
    (done : step chain ctx op = .ok ctx') : LedgerMove chain ctx op (ctx'.ledger chain) := by
  cases op with
  | beginBlock =>
    rw [beginBlocker_ledger books done]
    exact .none
  | deliver msg =>
    cases done
    rcases deliver_cases chain ctx msg with failed | ⟨valid, handled⟩
    · rw [failed]
      exact .none
    rcases (dispatch_effect books valid handled).ledger books keyed with
      same | ⟨del, amount, rfl, nonneg, moved⟩ | ⟨del, quantity, rfl, nonneg, moved⟩
    · rw [same]
      exact .none
    · rw [moved]
      exact .withdraw nonneg
    · rw [moved]
      exact .destroy nonneg
  | endBlock =>
    obtain ⟨⟨_, _⟩, ended, done⟩ := bind_eq_ok.mp done
    cases done
    obtain ⟨mid, tended, rfl⟩ := endBlocker_tended books.sound ended
    change LedgerMove chain ctx .endBlock ((completeMatureUndelegations chain mid).ledger chain)
    rw [completeMatureUndelegations_ledger, tended.ledger, tended.context.1]
    exact .complete
  | govern proposal =>
    cases done
    obtain ⟨_, _, same, bonded, notBonded⟩ := handleProposal_same chain ctx proposal
    have kept : (handleProposal chain ctx proposal).ledger chain = ctx.ledger chain := by
      rw [same]
      simp only [Context.ledger, bonded, notBonded]
      rfl
    rw [kept]
    exact .none
  | others =>
    cases done
    exact .none

end Exchain.Staking
