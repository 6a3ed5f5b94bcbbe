import Exchain.Staking.Tending

namespace Exchain.Staking

open Distribution (Chain orPanic_eq_ok)
open Fallible (bind_eq_ok of_bind)

/-- The consensus address with which the validator votes if it is bonded. -/
def Validator.seat (v : Validator) : Option ConsAddress :=
  if v.isBonded then some v.consAddress else none

def Store.seat (s : Store) (addr : Address) : Option ConsAddress :=
  (s.validators.get addr).bind Validator.seat

structure Seated (s s' : Store) : Prop where
  seat : ∀ addr, s'.seat addr = s.seat addr
  lastValidatorPower : s'.lastValidatorPower = s.lastValidatorPower
  lastTotalPower : s'.lastTotalPower = s.lastTotalPower
  params : s'.params = s.params

theorem Seated.refl (s : Store) : Seated s s := ⟨fun _ => rfl, rfl, rfl, rfl⟩

variable {addr : Address} {s s' : Store} {v : Validator}

theorem Seated.trans {s'' : Store} (first : Seated s s') (second : Seated s' s'') : Seated s s'' :=
  ⟨fun addr => (second.seat addr).trans (first.seat addr),
    second.lastValidatorPower.trans first.lastValidatorPower,
    second.lastTotalPower.trans first.lastTotalPower, second.params.trans first.params⟩

theorem seat_of_none (absent : s.validators.get addr = none) : s.seat addr = none := by
  rw [Store.seat, absent]
  rfl

theorem seat_of_get (found : s.validators.get addr = some v) : s.seat addr = v.seat := by
  rw [Store.seat, found]
  rfl

theorem Validator.seat_of_unbonded (unbonded : v.status = .unbonded) : v.seat = none := by
  rw [Validator.seat, Validator.isBonded, unbonded]
  rfl

theorem seat_set {place : Address}
    (validators : s'.validators = s.validators.set place v) (addr : Address) :
    s'.seat addr = if addr = place then v.seat else s.seat addr := by
  rw [Store.seat, validators, SortedMap.get_set]
  split <;> rfl

theorem seat_rewrite (v' : Validator)
    (stored : s.validators.get v.operatorAddress = some v) (same : v'.seat = v.seat)
    (validators : s'.validators = s.validators.set v.operatorAddress v') (addr : Address) :
    s'.seat addr = s.seat addr := by
  rw [seat_set validators]
  split
  · rename_i here
    rw [here, seat_of_get stored, same]
  · rfl

theorem seat_delete {gone : Address} (empty : s.seat gone = none)
    (validators : s'.validators = s.validators.delete gone) (addr : Address) :
    s'.seat addr = s.seat addr := by
  by_cases here : addr = gone
  · rw [here, empty]
    apply seat_of_none
    rw [validators, SortedMap.get_delete_self]
  · rw [Store.seat, validators, SortedMap.get_delete_ne _ here, ← Store.seat]

theorem seat_reshared (reshared : Reshared (s.validators.get addr) (s'.validators.get addr)) :
    s'.seat addr = s.seat addr := by
  unfold Store.seat
  generalize s.validators.get addr = before at reshared
  generalize s'.validators.get addr = after at reshared
  cases reshared with
  | absent => rfl
  | moved v x => rfl
  | gone _ unbonded => exact (Validator.seat_of_unbonded unbonded).symm

variable {Denom : Type} {ctx ctx' : Context Denom} {cons : ConsAddress} {v : Validator}

variable (stored : ctx.staking.validators.get v.operatorAddress = some v)
include stored

theorem jailValidator_seated
    (done : jailValidator ctx v = .ok ctx') : Seated ctx.staking ctx'.staking := by
  unfold jailValidator at done
  split at done
  · cases done
  cases done
  refine ⟨fun addr => ?_, rfl, rfl, rfl⟩
  apply seat_rewrite { v with jailed := true } stored rfl
  rfl

theorem unjailValidator_seated
    (done : unjailValidator ctx v = .ok ctx') : Seated ctx.staking ctx'.staking := by
  unfold unjailValidator at done
  split at done
  · cases done
  cases done
  refine ⟨fun addr => ?_, rfl, rfl, rfl⟩
  apply seat_rewrite { v with jailed := false } stored rfl
  rfl

variable [Fintype Denom] {chain : Chain Denom}

omit stored in
theorem removeValidator_seated (found : ctx.staking.getValidator addr = some v)
    (done : removeValidator chain ctx addr = .ok ctx') : Seated ctx.staking ctx'.staking := by
  obtain ⟨unbonded, staking, -⟩ := removeValidator_ok done found
  have empty : ctx.staking.seat addr = none := (seat_of_get found).trans (Validator.seat_of_unbonded unbonded)
  rw [staking]
  exact ⟨seat_delete empty rfl, rfl, rfl, rfl⟩

/-- A destroyed validator keeps its seat until the end of the block. -/
theorem dismissValidator_seated {remainShares : Dec}
    (done : dismissValidator chain ctx { v with minSelfDelegation := 0, jailed := true } remainShares =
      .ok ctx') : Seated ctx.staking ctx'.staking := by
  unfold dismissValidator at done
  split at done
  · exact removeValidator_seated stored done
  obtain ⟨ctx₁, abandoned, done⟩ := bind_eq_ok.mp done
  cases done
  have first : Seated ctx.staking ctx₁.staking ∧
      ctx₁.staking.validators = ctx.staking.validators := by
    unfold abandonIfBonded at abandoned
    split at abandoned
    · obtain ⟨_, abandoned⟩ := of_bind abandoned
      cases abandoned
      exact ⟨⟨fun _ => rfl, rfl, rfl, rfl⟩, rfl⟩
    · cases abandoned
      exact ⟨Seated.refl _, rfl⟩
  refine first.1.trans ⟨fun addr => ?_, rfl, rfl, rfl⟩
  apply seat_rewrite (v := v)
    { v with minSelfDelegation := 0, jailed := true, delegatorShares := remainShares }
    (first.2 ▸ stored) rfl
  rfl

omit stored

/-- The life of the validators went on, and the bonded ones keep their seats. -/
structure Kept (chain : Chain Denom) (ctx ctx' : Context Denom) : Prop where
  tended : Tended chain ctx ctx'
  seated : Seated ctx.staking ctx'.staking

theorem Kept.refl (chain : Chain Denom) (ctx : Context Denom) : Kept chain ctx ctx :=
  ⟨Tended.refl _ _, Seated.refl _⟩

theorem Kept.trans {ctx'' : Context Denom} (first : Kept chain ctx ctx')
    (second : Kept chain ctx' ctx'') : Kept chain ctx ctx'' :=
  ⟨first.tended.trans second.tended, first.seated.trans second.seated⟩

theorem kept_loop {α : Type} {f : Context Denom → α → Except Failure (Context Denom)} {l : List α}
    (each : ∀ a ∈ l, ∀ ctx ctx', Sound ctx.staking → f ctx a = .ok ctx' → Kept chain ctx ctx')
    (sound : Sound ctx.staking) (done : l.foldlM f ctx = .ok ctx') : Kept chain ctx ctx' := by
  have whole := Fallible.foldlM_within
    (R := fun (ctx ctx' : Context Denom) => Sound ctx.staking → Kept chain ctx ctx')
    (fun _ _ => Kept.refl _ _)
    (fun first second sound => (first sound).trans (second ((first sound).tended.sound sound)))
    (fun a inside ctx ctx' once sound => each a inside ctx ctx' sound once) done
  exact whole sound

variable (sound : Sound ctx.staking)

include sound

theorem jail_kept (done : jail ctx cons = .ok ctx') : Kept chain ctx ctx' := by
  obtain ⟨_, looked, done⟩ := bind_eq_ok.mp done
  have stored := (mustGetValidatorByConsAddr_ok sound looked).1
  exact ⟨(jailValidator_ok sound stored done).tended, jailValidator_seated stored done⟩

theorem appendAbandonedValidatorAddrs_kept (done : appendAbandonedValidatorAddrs ctx cons = .ok ctx') :
    Kept chain ctx ctx' := by
  obtain ⟨_, done⟩ := of_bind done
  cases done
  exact ⟨Tended.of_same sound rfl rfl rfl rfl, fun _ => rfl, rfl, rfl, rfl⟩

theorem Kept.record (kept : Kept chain ctx ctx') (slashing : SlashingStore) :
    Kept chain ctx { ctx' with slashing } :=
  kept.trans ⟨Tended.of_same (kept.tended.sound sound) rfl rfl rfl rfl, Seated.refl _⟩

theorem punishDowntime_kept {info : SigningInfo}
    (done : punishDowntime ctx cons info = .ok ctx') : Kept chain ctx ctx' := by
  unfold punishDowntime at done
  split at done
  · cases done
    exact Kept.refl _ _
  split at done
  · cases done
    exact Kept.refl _ _
  obtain ⟨ctx₁, jailed, done⟩ := bind_eq_ok.mp done
  obtain ⟨ctx₂, abandoned, done⟩ := bind_eq_ok.mp done
  cases done
  have first : Kept chain ctx ctx₁ := jail_kept sound jailed
  have second : Kept chain ctx₁ ctx₂ :=
    appendAbandonedValidatorAddrs_kept (first.tended.sound sound) abandoned
  exact (first.trans second).record sound _

theorem handleValidatorSignature_kept {vote : VoteInfo}
    (done : handleValidatorSignature ctx vote = .ok ctx') : Kept chain ctx ctx' := by
  obtain ⟨_, done⟩ := of_bind done
  obtain ⟨_, done⟩ := of_bind done
  split at done
  · exact punishDowntime_kept sound done
  · cases done
    exact Kept.refl _ _

theorem handleDoubleSign_kept {evidence : Equivocation}
    (done : handleDoubleSign ctx evidence = .ok ctx') : Kept chain ctx ctx' := by
  unfold handleDoubleSign at done
  simp only at done
  split at done
  · cases done
    exact Kept.refl _ _
  split at done
  · cases done
    exact Kept.refl _ _
  split at done
  · cases done
    exact Kept.refl _ _
  split at done
  · cases done
    exact Kept.refl _ _
  obtain ⟨_, done⟩ := of_bind done
  split at done
  · cases done
    exact Kept.refl _ _
  obtain ⟨ctx₁, abandoned, done⟩ := bind_eq_ok.mp done
  obtain ⟨ctx₂, jailed, done⟩ := bind_eq_ok.mp done
  cases done
  have first : Kept chain ctx ctx₁ := appendAbandonedValidatorAddrs_kept sound abandoned
  have second : Kept chain ctx₁ ctx₂ := by
    unfold jailUnlessJailed at jailed
    split at jailed
    · cases jailed
      exact Kept.refl _ _
    · exact jail_kept (first.tended.sound sound) jailed
  exact (first.trans second).record sound _

theorem unbondMature_kept (done : unbondMature chain ctx addr = .ok ctx') :
    Kept chain ctx ctx' := by
  obtain ⟨v, looked, done⟩ := bind_eq_ok.mp done
  obtain ⟨_, unbonding, done⟩ := bind_eq_ok.mp done
  have unbonding : v.status = .unbonding := require_eq_ok.mp unbonding
  have found : ctx.staking.validators.get addr = some v := orPanic_eq_ok.mp looked
  have stored := (sound.operator addr v found).symm ▸ found
  have first : Kept chain ctx (completeUnbondingValidator ctx v).1 := by
    refine ⟨(completeUnbondingValidator_restated sound stored).tended, fun a => ?_, rfl, rfl, rfl⟩
    apply seat_rewrite { v with status := .unbonded } stored _ rfl
    rw [Validator.seat, Validator.seat, Validator.isBonded, Validator.isBonded, unbonding]
    rfl
  simp only at done
  split at done
  · rename_i bare
    simp only [Bool.and_eq_true, decide_eq_true_eq] at bare
    have written : (completeUnbondingValidator ctx v).1.staking.getValidator v.operatorAddress =
        some { v with status := .unbonded } := SortedMap.get_set_self _ _ _
    exact first.trans ⟨Relation.ReflTransGen.single (.remove written bare.1 bare.2 done),
      removeValidator_seated written done⟩
  · cases done
    exact first

theorem unbondAllMatureValidatorQueue_kept (done : unbondAllMatureValidatorQueue chain ctx = .ok ctx') :
    Kept chain ctx ctx' := by
  refine kept_loop (fun slice _ ctx ctx' sound once => ?_) sound done
  obtain ⟨ctx₁, emptied, once⟩ := bind_eq_ok.mp once
  cases once
  have inner : Kept chain ctx ctx₁ :=
    kept_loop (fun addr _ ctx ctx' sound once => unbondMature_kept sound once) sound emptied
  exact inner.trans ⟨Tended.of_same (inner.tended.sound sound) rfl rfl rfl rfl, fun _ => rfl, rfl, rfl, rfl⟩

end Exchain.Staking
