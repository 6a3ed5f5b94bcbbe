import Exchain.Staking.ShareMoves
import Exchain.Staking.Step

namespace Exchain.Staking

open Distribution (Chain Header Funds Account)
open Fallible (bind_eq_ok of_bind foldlM_cons_ok)

/-- What a validator keeps while it is jailed, bonded or unbonded. -/
def Validator.core (v : Validator) : Validator :=
  { v with jailed := false, status := .unbonded, unbondingHeight := 0, unbondingCompletionTime := 0 }

/-- What the books have of a validator. -/
def Validator.bare (v : Validator) : Validator := { v.core with commission := ⟨0, 0, 0⟩ }

variable {v v' : Validator}

theorem Validator.bare_of_core (core : v'.core = v.core) : v'.bare = v.bare :=
  congrArg (fun w : Validator => { w with commission := ⟨0, 0, 0⟩ }) core

/-- The store without the validators and what follows their life. -/
def Store.accounts (s : Store) : Store :=
  { s with
    epoch := 0, theEndOfLastEpoch := 0, validators := ∅, validatorsByConsAddr := ∅,
    validatorsByPower := ∅, lastValidatorPower := ∅, lastTotalPower := 0, validatorQueue := ∅,
    abandonedValidatorAddrs := [] }

theorem moveShares_accounts (s : Store) (v : Validator) (x : Dec) :
    (s.moveShares v x).accounts = s.accounts := by
  simp only [Store.moveShares, Store.setValidatorByPowerIndex]
  split
  · rfl
  · rfl

theorem Sound.restate {s s' : Store} (sound : Sound s) (v' : Validator)
    (stored : s.validators.get v.operatorAddress = some v) (bare : v'.bare = v.bare)
    (validators : s'.validators = s.validators.set v.operatorAddress v')
    (byCons : s'.validatorsByConsAddr = s.validatorsByConsAddr) (shares : s'.shares = s.shares)
    (byPower : ∀ key, s'.validatorsByPower.get key =
      if v'.jailed = false ∧ key = v'.powerKey then some v.operatorAddress
      else if key = v.powerKey then none else s.validatorsByPower.get key) : Sound s' := by
  have same : ∀ addr, s'.sharesOn addr = s.sharesOn addr := by
    intro addr
    rw [Store.sharesOn, shares, ← Store.sharesOn]
  apply sound.replace v' stored (congrArg (·.operatorAddress) bare :)
    (congrArg (·.consAddress) bare :) validators byCons byPower (fun addr _ => same addr)
  · have delegatorShares : v'.delegatorShares = v.delegatorShares :=
      (congrArg (·.delegatorShares) bare :)
    have ownShare : v'.ownShare = v.ownShare := (congrArg (·.ownShare) bare :)
    rw [same, delegatorShares, ownShare]
    exact sound.tally _ v stored
  · rw [shares]
    exact sound.shares_pos
  · intro key x found
    rw [shares] at found
    exact .inr ⟨x, found⟩

theorem powerKey_of_bare (bare : v'.bare = v.bare) : v'.powerKey = v.powerKey :=
  (congrArg (·.powerKey) bare :)

/-- The power index as it is lists the validator as long as it is not jailed. -/
theorem Sound.power_same {s : Store} (sound : Sound s)
    (stored : s.validators.get v.operatorAddress = some v) (bare : v'.bare = v.bare)
    (jailed : v'.jailed = v.jailed) (key : PowerKey) : s.validatorsByPower.get key =
      if v'.jailed = false ∧ key = v'.powerKey then some v.operatorAddress
      else if key = v.powerKey then none else s.validatorsByPower.get key := by
  rw [jailed, powerKey_of_bare bare]
  by_cases here : key = v.powerKey
  · cases free : v.jailed with
    | false =>
      rw [if_pos ⟨rfl, here⟩]
      exact (sound.power key v.operatorAddress).mpr ⟨v, stored, free, here.symm⟩
    | true =>
      rw [if_pos here]
      cases entry : s.validatorsByPower.get key with
      | none => rfl
      | some addr =>
        obtain ⟨w, found, unjailed, same⟩ := (sound.power key addr).mp entry
        have operator := sound.operator addr w found
        rw [← operator, operatorAddress_of_powerKey (same.trans here), stored] at found
        cases found
        rw [free] at unjailed
        cases unjailed
  · rw [if_neg fun both => here both.2, if_neg here]

variable {Denom : Type}

/-- Validators were written anew without touching any stake. -/
structure Restated (ctx ctx' : Context Denom) : Prop where
  sound : Sound ctx'.staking
  accounts : ctx'.staking.accounts = ctx.staking.accounts
  core : ∀ addr, (ctx'.staking.validators.get addr).map Validator.core =
    (ctx.staking.validators.get addr).map Validator.core
  header : ctx'.header = ctx.header
  events : ctx'.events = ctx.events
  consensusSet : ctx'.consensusSet = ctx.consensusSet
  funds : ctx'.funds = ctx.funds

variable {slashing : SlashingStore}

theorem Restated.set {ctx : Context Denom} {t : Store} {v : Validator}
    (v' : Validator) (sound : Sound t) (stored : ctx.staking.validators.get v.operatorAddress = some v)
    (core : v'.core = v.core) (accounts : t.accounts = ctx.staking.accounts)
    (validators : t.validators = ctx.staking.validators.set v.operatorAddress v') :
    Restated ctx { ctx with staking := t, slashing } where
  sound := sound
  accounts := accounts
  core addr := by
    rw [validators, SortedMap.get_set]
    split
    · rename_i here
      rw [here, stored, Option.map_some, Option.map_some, core]
    · rfl
  header := rfl
  events := rfl
  consensusSet := rfl
  funds := rfl

theorem Restated.of_same {ctx : Context Denom} {t : Store}
    (sound : Sound ctx.staking) (accounts : t.accounts = ctx.staking.accounts)
    (validators : t.validators = ctx.staking.validators)
    (byCons : t.validatorsByConsAddr = ctx.staking.validatorsByConsAddr)
    (byPower : t.validatorsByPower = ctx.staking.validatorsByPower) :
    Restated ctx { ctx with staking := t, slashing } where
  sound := sound.of_same validators byCons byPower (congrArg (·.shares) accounts :)
  accounts := accounts
  core _ := by rw [validators]
  header := rfl
  events := rfl
  consensusSet := rfl
  funds := rfl

section

variable {ctx ctx' : Context Denom} {cons : ConsAddress} {v : Validator}

theorem mustGetValidator_ok {addr : Address}
    (done : ctx.mustGetValidator addr = .ok v) : ctx.staking.validators.get addr = some v := by
  unfold Context.mustGetValidator at done
  split at done
  · rename_i w found
    cases done
    exact found
  · cases done

theorem getValidatorByConsAddr_some {s : Store} (sound : Sound s)
    (found : s.getValidatorByConsAddr cons = some v) :
    s.validators.get v.operatorAddress = some v ∧ v.consAddress = cons := by
  obtain ⟨addr, listed, stored⟩ := Option.bind_eq_some_iff.mp found
  obtain ⟨_, there, same⟩ := (sound.consAddr cons addr).mp listed
  have stored : s.validators.get addr = some v := stored
  rw [stored] at there
  cases there
  exact ⟨(sound.operator addr v stored).symm ▸ stored, same⟩

section

variable (sound : Sound ctx.staking)

include sound

theorem mustGetValidatorByConsAddr_ok (done : ctx.mustGetValidatorByConsAddr cons = .ok v) :
    ctx.staking.validators.get v.operatorAddress = some v ∧ v.consAddress = cons := by
  unfold Context.mustGetValidatorByConsAddr at done
  split at done
  · rename_i w found
    cases done
    exact getValidatorByConsAddr_some sound found
  · cases done

variable (stored : ctx.staking.validators.get v.operatorAddress = some v)
include stored

theorem jailValidator_ok (done : jailValidator ctx v = .ok ctx') : Restated ctx ctx' := by
  unfold jailValidator at done
  split at done
  · cases done
  cases done
  refine Restated.set { v with jailed := true } ?_ stored rfl rfl rfl
  apply sound.restate { v with jailed := true } stored
  · rfl
  · rfl
  · rfl
  · rfl
  · intro key
    exact SortedMap.get_delete _ _ _

theorem unjailValidator_ok (done : unjailValidator ctx v = .ok ctx') : Restated ctx ctx' := by
  unfold unjailValidator at done
  split at done
  · cases done
  cases done
  refine Restated.set { v with jailed := false } ?_ stored rfl rfl rfl
  apply sound.restate { v with jailed := false } stored
  · rfl
  · rfl
  · rfl
  · rfl
  · intro key
    change (ctx.staking.validatorsByPower.set v.powerKey v.operatorAddress).get key =
      if false = false ∧ key = v.powerKey then _ else _
    rw [SortedMap.get_set]
    by_cases here : key = v.powerKey
    · rw [if_pos here, if_pos ⟨rfl, here⟩]
    · rw [if_neg here, if_neg fun both => here both.2, if_neg here]

end

theorem Sound.rewrite {s t : Store} (sound : Sound s) (v' : Validator)
    (stored : s.validators.get v.operatorAddress = some v) (core : v'.core = v.core)
    (written : t = ((s.deleteValidatorByPowerIndex v).setValidator v').setValidatorByPowerIndex v') :
    Sound t ∧ t.accounts = s.accounts ∧ t.validators = s.validators.set v.operatorAddress v' := by
  have operator : v'.operatorAddress = v.operatorAddress := (congrArg (·.operatorAddress) core :)
  have same : ∀ {α : Type} (f : Store → α), (∀ t index, f { t with validatorsByPower := index } = f t) →
      f t = f (s.setValidator v') := by
    intro α f blind
    rw [written, Store.setValidatorByPowerIndex]
    split
    all_goals exact blind (s.setValidator v') _
  have validators : t.validators = s.validators.set v.operatorAddress v' := by
    rw [same (·.validators) fun _ _ => rfl, ← operator]
    rfl
  refine ⟨sound.restate v' stored (Validator.bare_of_core core) validators (same (·.validatorsByConsAddr) fun _ _ => rfl)
    (same (·.shares) fun _ _ => rfl) fun key => ?_, same Store.accounts fun _ _ => rfl, validators⟩
  rw [written]
  exact get_setValidatorByPowerIndex s v v' key operator

theorem deleteValidatorQueue_eq (s : Store) (v : Validator) :
    ∃ queue, s.deleteValidatorQueue v = { s with validatorQueue := queue } := by
  simp only [Store.deleteValidatorQueue]
  split
  all_goals exact ⟨_, rfl⟩

variable (sound : Sound ctx.staking)
  (stored : ctx.staking.validators.get v.operatorAddress = some v)

include sound stored

theorem Restated.rewrite (v' : Validator) {t : Store} {queue : SortedMap Time (List Address)}
    (written : t = ((ctx.staking.deleteValidatorByPowerIndex v).setValidator v').setValidatorByPowerIndex v')
    (core : v'.core = v.core) :
    Restated ctx { ctx with staking := { t with validatorQueue := queue }, slashing } := by
  obtain ⟨kept, accounts, validators⟩ := sound.rewrite v' stored core written
  exact .set v' (kept.of_same rfl rfl rfl rfl) stored core accounts validators

theorem bondValidator_restated : Restated ctx (bondValidator ctx v).1 := by
  unfold bondValidator
  dsimp only
  obtain ⟨queue, same⟩ := deleteValidatorQueue_eq _ _
  rw [same]
  exact .rewrite sound stored { v with status := .bonded } rfl rfl

theorem beginUnbondingValidator_restated {w : Validator}
    (done : beginUnbondingValidator ctx v = .ok (ctx', w)) : Restated ctx ctx' := by
  unfold beginUnbondingValidator at done
  split at done
  · cases done
  cases Except.ok.inj done
  exact .rewrite sound stored _ rfl rfl

theorem completeUnbondingValidator_restated :
    Restated ctx (completeUnbondingValidator ctx v).1 := by
  refine Restated.set { v with status := .unbonded } ?_ stored rfl rfl rfl
  apply sound.restate { v with status := .unbonded } stored
  · rfl
  · rfl
  · rfl
  · rfl
  · exact sound.power_same stored rfl rfl

end

variable [Fintype Denom]

/-- One event in the life of the validators. -/
inductive Tend (chain : Chain Denom) : Context Denom → Context Denom → Prop where
  | restate {ctx ctx' : Context Denom} (restated : Restated ctx ctx') : Tend chain ctx ctx'
  | remove {ctx ctx' : Context Denom} {addr : Address} {v : Validator}
      (found : ctx.staking.getValidator addr = some v) (bare : v.delegatorShares = 0)
      (dismissed : v.minSelfDelegation = 0) (done : removeValidator chain ctx addr = .ok ctx') :
      Tend chain ctx ctx'

variable {chain : Chain Denom} {ctx ctx' : Context Denom}

theorem removeValidator_sound {addr : Address}
    (sound : Sound ctx.staking) (found : ctx.staking.getValidator addr = some v)
    (bare : v.delegatorShares = v.ownShare)
    (done : removeValidator chain ctx addr = .ok ctx') : Sound ctx'.staking := by
  obtain ⟨-, staking, -⟩ := removeValidator_ok done found
  have operator := sound.operator addr v found
  have tally := sound.tally addr v found
  have none_added : ctx.staking.sharesOn addr = 0 := by
    rw [bare] at tally
    exact left_eq_add.mp tally
  rw [staking, ← operator]
  apply sound.drop (operator ▸ found) rfl rfl
  · intro key
    exact SortedMap.get_delete _ _ _
  intro key
  split
  · rename_i here
    have absent := sound.no_shares none_added (ofLex key).2
    rw [← operator, ← here] at absent
    exact absent
  · rfl

theorem Tend.sound (tend : Tend chain ctx ctx')
    (sound : Sound ctx.staking) : Sound ctx'.staking := by
  cases tend with
  | restate restated => exact restated.sound
  | remove found bare dismissed done =>
    apply removeValidator_sound sound found _ done
    rw [bare, Validator.ownShare, if_pos dismissed]

/-- A whole stretch of such events. -/
def Tended (chain : Chain Denom) : Context Denom → Context Denom → Prop :=
  Relation.ReflTransGen (Tend chain)

theorem Tended.sound (tended : Tended chain ctx ctx')
    (sound : Sound ctx.staking) : Sound ctx'.staking := by
  induction tended with
  | refl => exact sound
  | tail _ tend ih => exact tend.sound ih

theorem Tended.refl (chain : Chain Denom) (ctx : Context Denom) : Tended chain ctx ctx :=
  Relation.ReflTransGen.refl

theorem Tended.trans {ctx'' : Context Denom}
    (first : Tended chain ctx ctx') (second : Tended chain ctx' ctx'') : Tended chain ctx ctx'' :=
  Relation.ReflTransGen.trans first second

theorem Restated.tended (restated : Restated ctx ctx') : Tended chain ctx ctx' :=
  Relation.ReflTransGen.single (.restate restated)

theorem Tended.of_same {t : Store}
    (sound : Sound ctx.staking) (accounts : t.accounts = ctx.staking.accounts)
    (validators : t.validators = ctx.staking.validators)
    (byCons : t.validatorsByConsAddr = ctx.staking.validatorsByConsAddr)
    (byPower : t.validatorsByPower = ctx.staking.validatorsByPower) :
    Tended chain ctx { ctx with staking := t, slashing } :=
  (Restated.of_same sound accounts validators byCons byPower).tended

variable {chain : Chain Denom} {ctx ctx' : Context Denom}

/-- A loop each step of which is an event in the life of the validators. -/
theorem tended_loop {σ α : Type} (view : σ → Context Denom) {f : σ → α → Except Failure σ} {l : List α}
    (each : ∀ a ∈ l, ∀ s t, Sound (view s).staking → f s a = .ok t → Tended chain (view s) (view t))
    {s t : σ} (sound : Sound (view s).staking) (done : l.foldlM f s = .ok t) :
    Tended chain (view s) (view t) := by
  have whole := Fallible.foldlM_within
    (R := fun s t => Sound (view s).staking → Tended chain (view s) (view t))
    (fun _ _ => Tended.refl _ _)
    (fun first second sound => (first sound).trans (second ((first sound).sound sound)))
    (fun a inside s t once sound => each a inside s t sound once) done
  exact whole sound

variable {addr : Address} {updates : List ValidatorUpdate}

theorem elect_tended {e : Election Denom} (sound : Sound e.ctx.staking)
    (stored : e.ctx.staking.validators.get v.operatorAddress = some v) :
    Tended chain e.ctx (elect e addr v).ctx := by
  have powered : ∀ ctx : Context Denom, Sound ctx.staking → ∀ (changed : Prop) [Decidable changed] power,
      Tended chain ctx (if changed then
        { ctx with staking := ctx.staking.setLastValidatorPower addr power } else ctx) := by
    intro ctx sound changed _ power
    split
    · exact Tended.of_same sound rfl rfl rfl rfl
    · exact Tended.refl _ _
  have bonded : Tended chain e.ctx (if v.isBonded then (e.ctx, v) else bondValidator e.ctx v).1 := by
    split
    · exact Tended.refl _ _
    · exact (bondValidator_restated sound stored).tended
  exact bonded.trans (powered _ (bonded.sound sound) _ _)

theorem electFrom_tended {maxValidators : Nat} {addrs : List Address} {e e' : Election Denom}
    (sound : Sound e.ctx.staking) (done : electFrom maxValidators e addrs = .ok e') :
    Tended chain e.ctx e'.ctx := by
  induction addrs generalizing e with
  | nil =>
    cases done
    exact Tended.refl _ _
  | cons addr rest ih =>
    unfold electFrom at done
    split at done
    · cases done
      exact Tended.refl _ _
    obtain ⟨v, looked, done⟩ := bind_eq_ok.mp done
    obtain ⟨_, done⟩ := of_bind done
    split at done
    · cases done
      exact Tended.refl _ _
    have found := mustGetValidator_ok looked
    have once : Tended chain e.ctx (elect e addr v).ctx :=
      elect_tended sound ((sound.operator addr v found).symm ▸ found)
    exact once.trans (ih (once.sound sound) done)

theorem discharge_tended {updates' : List ValidatorUpdate}
    (sound : Sound ctx.staking) (done : discharge (ctx, updates) addr = .ok (ctx', updates')) :
    Tended chain ctx ctx' := by
  obtain ⟨v, looked, done⟩ := bind_eq_ok.mp done
  obtain ⟨⟨_, _⟩, unbonding, done⟩ := bind_eq_ok.mp done
  obtain ⟨rfl, -⟩ := Prod.mk.inj (Except.ok.inj done)
  have found := mustGetValidator_ok looked
  have restated := beginUnbondingValidator_restated sound
    ((sound.operator addr v found).symm ▸ found) unbonding
  exact restated.tended.trans (Tended.of_same restated.sound rfl rfl rfl rfl)

theorem applyAndReturnValidatorSetUpdates_tended
    (sound : Sound ctx.staking) (done : applyAndReturnValidatorSetUpdates ctx = .ok (ctx', updates)) :
    Tended chain ctx ctx' := by
  obtain ⟨e, elected, done⟩ := bind_eq_ok.mp done
  obtain ⟨⟨ctx₁, _⟩, discharged, done⟩ := bind_eq_ok.mp done
  have first : Tended chain ctx e.ctx := electFrom_tended sound elected
  have second : Tended chain e.ctx ctx₁ := tended_loop (·.1)
    (fun addr _ state state' sound once => discharge_tended sound once) (first.sound sound) discharged
  have both := first.trans second
  simp only at done
  split at done
  · obtain ⟨rfl, -⟩ := Prod.mk.inj (Except.ok.inj done)
    exact both
  · obtain ⟨rfl, -⟩ := Prod.mk.inj (Except.ok.inj done)
    exact both.trans (Tended.of_same (both.sound sound) rfl rfl rfl rfl)

variable {last : SortedMap Address Int}

theorem promoteFrom_tended {count : Nat} {addrs : List Address}
    {r r' : Replacement Denom} (sound : Sound r.ctx.staking)
    (done : promoteFrom last count r addrs = .ok r') : Tended chain r.ctx r'.ctx := by
  induction addrs generalizing count r with
  | nil =>
    cases count <;>
    · cases done
      exact Tended.refl _ _
  | cons addr rest ih =>
    cases count with
    | zero =>
      cases done
      exact Tended.refl _ _
    | succ =>
      unfold promoteFrom at done
      split at done
      · exact ih sound done
      obtain ⟨v, looked, done⟩ := bind_eq_ok.mp done
      split at done
      · exact ih sound done
      split at done
      · cases done
      have found := mustGetValidator_ok looked
      have bonded := bondValidator_restated sound
        ((sound.operator addr v found).symm ▸ found)
      have once : Tended chain r.ctx (promote r addr v).ctx :=
        bonded.tended.trans (Tended.of_same bonded.sound rfl rfl rfl rfl)
      exact once.trans (ih (once.sound sound) done)

theorem dischargeAbandoned_tended {r r' : Replacement Denom}
    (sound : Sound r.ctx.staking) (done : dischargeAbandoned last r addr = .ok r') :
    Tended chain r.ctx r'.ctx := by
  obtain ⟨_, done⟩ := of_bind done
  split at done
  · obtain ⟨⟨_, _⟩, discharged, done⟩ := bind_eq_ok.mp done
    obtain ⟨_, done⟩ := of_bind done
    cases done
    exact discharge_tended sound discharged
  · cases done
    exact Tended.refl _ _

variable (sound : Sound ctx.staking)

include sound

theorem kickOutAndReturnValidatorSetUpdates_tended (done : kickOutAndReturnValidatorSetUpdates ctx = .ok (ctx', updates)) :
    Tended chain ctx ctx' := by
  obtain ⟨r, promoted, done⟩ := bind_eq_ok.mp done
  obtain ⟨r₁, discharged, done⟩ := bind_eq_ok.mp done
  obtain ⟨rfl, -⟩ := Prod.mk.inj (Except.ok.inj done)
  have first : Tended chain ctx r.ctx := promoteFrom_tended sound promoted
  have second : Tended chain r.ctx r₁.ctx := tended_loop (·.ctx)
    (fun addr _ r r' sound once => dischargeAbandoned_tended sound once) (first.sound sound) discharged
  have both := first.trans second
  exact both.trans (Tended.of_same (both.sound sound) rfl rfl rfl rfl)

theorem updateValidatorSet_tended (done : updateValidatorSet ctx = .ok (ctx', updates)) : Tended chain ctx ctx' := by
  unfold updateValidatorSet at done
  split at done
  · have marked : Restated ctx { ctx with staking := { ctx.staking with
        epoch := ctx.staking.params.epoch, theEndOfLastEpoch := ctx.header.height } } :=
      Restated.of_same sound rfl rfl rfl rfl
    exact marked.tended.trans (applyAndReturnValidatorSetUpdates_tended marked.sound done)
  · split at done
    · exact kickOutAndReturnValidatorSetUpdates_tended sound done
    · obtain ⟨rfl, -⟩ := Prod.mk.inj (Except.ok.inj done)
      exact Tended.refl _ _

end Exchain.Staking
