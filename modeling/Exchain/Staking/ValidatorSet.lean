import Exchain.Staking.Accounting

namespace Exchain.Staking

open SortedMap Store Option
open List hiding sum_set
open Distribution (Chain Header Funds orPanic_eq_ok)
open Fallible (bind_eq_ok of_bind foldlM_cons_ok)

def Store.recordedPower (s : Store) : Int := s.lastValidatorPower.sum fun _ power => power

def Store.recordedSeats (s : Store) : Int := s.lastValidatorPower.sum fun _ _ => 1

def Store.WithinSeats (s : Store) : Prop := s.recordedSeats ≤ s.params.maxValidators

/-- The recorded powers are those of the seats, and the set votes with them. -/
structure Rostered (s : Store) (set : SortedMap ConsAddress Int) : Prop where
  seated : ∀ addr, (∃ power, s.lastValidatorPower.get addr = some power) ↔
    ∃ cons, s.seat addr = some cons
  votes : ∀ cons power, set.get cons = some power ↔
    ∃ addr, s.seat addr = some cons ∧ s.lastValidatorPower.get addr = some power

variable {addr : Address} {cons : ConsAddress} {s s' : Store} {set : SortedMap ConsAddress Int}

theorem Rostered.of_same (rostered : Rostered s set) (seat : ∀ addr, s'.seat addr = s.seat addr)
    (recorded : s'.lastValidatorPower = s.lastValidatorPower) : Rostered s' set where
  seated addr := by
    rw [recorded, seat]
    exact rostered.seated addr
  votes cons power := by
    simp only [recorded, seat]
    exact rostered.votes cons power

theorem seat_eq_some : s.seat addr = some cons ↔
      ∃ v, s.validators.get addr = some v ∧ v.status = .bonded ∧ v.consAddress = cons := by
  rw [seat, bind_eq_some_iff]
  simp only [Validator.seat, Validator.isBonded, decide_eq_true_eq, ite_none_right_eq_some,
    Option.some.injEq]

theorem seat_cons {v : Validator}
    (found : s.validators.get addr = some v) (taken : s.seat addr = some cons) :
    cons = v.consAddress := by
  obtain ⟨_, there, -, same⟩ := seat_eq_some.mp taken
  rw [found] at there
  cases there
  exact same.symm

theorem Rostered.none_of_empty (rostered : Rostered s set)
    (empty : s.seat addr = none) : s.lastValidatorPower.get addr = none := by
  cases recorded : s.lastValidatorPower.get addr with
  | none => rfl
  | some power =>
    obtain ⟨_, taken⟩ := (rostered.seated addr).mp ⟨power, recorded⟩
    rw [empty] at taken
    cases taken

theorem Sound.seat_unique (sound : Sound s) {other : Address}
    (here : s.seat addr = some cons) (there : s.seat other = some cons) : other = addr := by
  have listed : ∀ a, s.seat a = some cons → s.validatorsByConsAddr.get cons = some a := by
    intro a taken
    obtain ⟨v, found, -, same⟩ := seat_eq_some.mp taken
    exact (sound.consAddr cons a).mpr ⟨v, found, same⟩
  have both := (listed addr here).symm.trans (listed other there)
  exact (Option.some.inj both).symm

theorem Rostered.reseat {set' : SortedMap ConsAddress Int} (rostered : Rostered s set)
    (own : ∀ c, s.seat addr = some c → c = cons) (only : ∀ a, s'.seat a = some cons → a = addr)
    (new : Option Int) (seat : ∀ a, s'.seat a = if a = addr then new.map fun _ => cons else s.seat a)
    (recorded : ∀ a, s'.lastValidatorPower.get a =
      if a = addr then new else s.lastValidatorPower.get a)
    (votes : ∀ c, set'.get c = if c = cons then new else set.get c) : Rostered s' set' where
  seated a := by
    rw [seat, recorded]
    split
    · cases new <;> simp
    · exact rostered.seated a
  votes c p := by
    rw [votes]
    split
    · rename_i here
      subst here
      constructor
      · rintro rfl
        exact ⟨addr, (seat addr).trans (if_pos rfl), (recorded addr).trans (if_pos rfl)⟩
      · rintro ⟨a, there, found⟩
        rw [recorded, if_pos (only a there)] at found
        exact found
    · rename_i away
      rw [rostered.votes]
      refine exists_congr fun a => ?_
      rw [seat, recorded]
      split
      · rename_i same
        subst same
        refine iff_of_false (fun both => away (own c both.1)) ?_
        rintro ⟨there, -⟩
        obtain ⟨_, -, rfl⟩ := map_eq_some_iff.mp there
        exact away rfl
      · exact Iff.rfl

theorem applyUpdates_concat (set : SortedMap ConsAddress Int) (updates : List ValidatorUpdate)
    (update : ValidatorUpdate) : applyUpdates set (updates ++ [update]) =
      if update.power = 0 then (applyUpdates set updates).delete update.consAddress
      else (applyUpdates set updates).set update.consAddress update.power := by
  rw [applyUpdates, foldl_append]
  rfl

variable {Denom : Type}

section

variable {ctx ctx' : Context Denom}

theorem bondValidator_eq (ctx : Context Denom) (v : Validator) :
    ∃ index queue slashing, bondValidator ctx v = ({ ctx with
      staking := { ctx.staking with
        validators := ctx.staking.validators.set v.operatorAddress { v with status := .bonded }
        validatorsByPower := index, validatorQueue := queue }
      slashing }, { v with status := .bonded }) := by
  unfold bondValidator
  simp only [setValidatorByPowerIndex]
  split
  · obtain ⟨queue, same⟩ := deleteValidatorQueue_eq ((ctx.staking.deleteValidatorByPowerIndex
      v).setValidator { v with status := .bonded }) { v with status := .bonded }
    rw [same]
    exact ⟨_, queue, _, rfl⟩
  · rw [(deleteValidatorQueue_eq _ _).choose_spec]
    exact ⟨_, _, _, rfl⟩

variable {addr : Address} {v : Validator} {updates updates' : List ValidatorUpdate}

theorem discharge_eq
    (sound : Sound ctx.staking) (done : discharge (ctx, updates) addr = .ok (ctx', updates')) :
    ∃ v w index queue, ctx.staking.validators.get addr = some v ∧ v.status = .bonded ∧
      w.seat = none ∧ updates' = updates ++ [⟨v.consAddress, 0⟩] ∧
      ctx' = { ctx with staking := { ctx.staking with
        validators := ctx.staking.validators.set addr w
        validatorsByPower := index, validatorQueue := queue
        lastValidatorPower := ctx.staking.lastValidatorPower.delete addr } } := by
  obtain ⟨v, looked, done⟩ := bind_eq_ok.mp done
  obtain ⟨⟨_, _⟩, unbonding, done⟩ := bind_eq_ok.mp done
  cases Except.ok.inj done
  have found := mustGetValidator_ok looked
  obtain rfl := sound.operator addr v found
  unfold beginUnbondingValidator at unbonding
  split at unbonding
  · cases unbonding
  rename_i bonded
  cases Except.ok.inj unbonding
  simp only [Bool.not_eq_true', Bool.not_eq_false, Validator.isBonded, decide_eq_true_eq] at bonded
  refine ⟨v, { v with
    status := .unbonding
    unbondingCompletionTime := ctx.header.time + ctx.staking.params.unbondingTime
    unbondingHeight := ctx.header.height }, ?_⟩
  simp only [setValidatorByPowerIndex]
  split
  all_goals exact ⟨_, _, found, bonded, rfl, rfl, rfl⟩

theorem Validator.seat_of_bonded (bonded : v.status = .bonded) : v.seat = some v.consAddress := by
  rw [Validator.seat, Validator.isBonded, bonded]
  rfl

theorem Rostered.discharge (sound : Sound ctx.staking)
    (rostered : Rostered ctx.staking (applyUpdates set updates))
    (done : discharge (ctx, updates) addr = .ok (ctx', updates')) :
    Rostered ctx'.staking (applyUpdates set updates') ∧ updates' ≠ [] ∧
    (∃ cons, ctx.staking.seat addr = some cons) ∧
    (∀ a, ctx'.staking.seat a = if a = addr then none else ctx.staking.seat a) ∧
    ctx'.staking.lastValidatorPower = ctx.staking.lastValidatorPower.delete addr ∧
    ctx'.staking.lastTotalPower = ctx.staking.lastTotalPower ∧
    ctx'.staking.params = ctx.staking.params ∧ ctx'.consensusSet = ctx.consensusSet := by
  obtain ⟨v, w, index, queue, found, bonded, empty, rfl, rfl⟩ := discharge_eq sound done
  have taken : ctx.staking.seat addr = some v.consAddress := by
    rw [seat_of_get found, Validator.seat_of_bonded bonded]
  have seat : ∀ a, seat { ctx.staking with
      validators := ctx.staking.validators.set addr w
      validatorsByPower := index, validatorQueue := queue
      lastValidatorPower := ctx.staking.lastValidatorPower.delete addr } a =
        if a = addr then none else ctx.staking.seat a := by
    intro a
    rw [seat_set rfl, empty]
  refine ⟨?_, by simp, ⟨v.consAddress, taken⟩, seat, rfl, rfl, rfl, rfl⟩
  rw [applyUpdates_concat, if_pos rfl]
  refine rostered.reseat (fun c there => seat_cons found there) (fun a there => ?_) none seat
    (fun a => get_delete ..) (fun c => get_delete ..)
  rw [seat] at there
  split at there
  · cases there
  · exact sound.seat_unique taken there

theorem seat_bonded
    (validators : s'.validators = s.validators.set v.operatorAddress { v with status := .bonded })
    (a : Address) :
    s'.seat a = if a = v.operatorAddress then some v.consAddress else s.seat a := by
  rw [seat_set validators]
  rfl

/-- A validator that is bonded votes with the power that is recorded for it. -/
theorem Rostered.take (rostered : Rostered s set) (sound : Sound s') {power : Int}
    (own : ∀ c, s.seat v.operatorAddress = some c → c = v.consAddress)
    (validators : s'.validators = s.validators.set v.operatorAddress { v with status := .bonded })
    (recorded : s'.lastValidatorPower = s.lastValidatorPower.set v.operatorAddress power) :
    Rostered s' (set.set v.consAddress power) := by
  have taken := (seat_bonded validators v.operatorAddress).trans (if_pos rfl)
  exact rostered.reseat own (fun _ there => sound.seat_unique taken there) (some power)
    (seat_bonded validators) (fun a => recorded ▸ get_set ..) (fun _ => get_set ..)

/-- The validator that an election bonds, whether it was bonded or not. -/
theorem elected_eq (stored : ctx.staking.validators.get v.operatorAddress = some v) :
    ∃ index queue slashing, (if v.isBonded then (ctx, v) else bondValidator ctx v) = ({ ctx with
      staking := { ctx.staking with
        validators := ctx.staking.validators.set v.operatorAddress { v with status := .bonded }
        validatorsByPower := index, validatorQueue := queue }
      slashing }, { v with status := .bonded }) := by
  split
  · rename_i bonded
    have same : { v with status := .bonded } = v := by
      simp only [Validator.isBonded, decide_eq_true_eq] at bonded
      rw [← bonded]
    rw [same, set_get_self _ stored]
    exact ⟨_, _, _, rfl⟩
  · exact bondValidator_eq ctx v

/-- What holds while the candidates are elected: the recorded powers are those of the elected
validators and of those still to be discharged. -/
structure Electing (start : Context Denom) (e : Election Denom) (waiting : List Address) : Prop where
  sound : Sound e.ctx.staking
  rostered : Rostered e.ctx.staking (applyUpdates start.consensusSet e.updates)
  last : ∀ addr power, e.last.get addr = some power →
    e.ctx.staking.lastValidatorPower.get addr = some power
  untouched : ∀ addr ∈ waiting, e.last.get addr = e.ctx.staking.lastValidatorPower.get addr
  nodup : waiting.Nodup
  power : e.totalPower + e.last.sum (fun _ power => power) = e.ctx.staking.recordedPower
  seats : e.count + e.last.sum (fun _ _ => 1) = e.ctx.staking.recordedSeats
  unchanged : e.updates = [] → e.ctx.staking.lastValidatorPower = start.staking.lastValidatorPower
  lastTotalPower : e.ctx.staking.lastTotalPower = start.staking.lastTotalPower
  params : e.ctx.staking.params = start.staking.params
  consensusSet : e.ctx.consensusSet = start.consensusSet

variable {waiting : List Address}

theorem Electing.elect {start : Context Denom} {e : Election Denom}
    (electing : Electing start e (addr :: waiting))
    (found : e.ctx.staking.validators.get addr = some v)
    (powerful : v.potentialConsensusPowerByShares ≠ 0)
    (sound : Sound (elect e addr v).ctx.staking) : Electing start (elect e addr v) waiting := by
  obtain ⟨fresh, nodup⟩ := nodup_cons.mp electing.nodup
  have here := electing.untouched addr mem_cons_self
  obtain rfl := electing.sound.operator addr v found
  obtain ⟨index, queue, _, elected⟩ := elected_eq found
  have others : ∀ a ∈ waiting, a ≠ v.operatorAddress := by
    rintro a there rfl
    exact fresh there
  have last : ∀ a p, (e.last.delete v.operatorAddress).get a = some p →
      a ≠ v.operatorAddress ∧ e.ctx.staking.lastValidatorPower.get a = some p := by
    intro a p there
    obtain ⟨away, there⟩ := get_delete_eq_some.mp there
    exact ⟨away, electing.last a p there⟩
  have bondedPower : Validator.consensusPowerByShares { v with status := .bonded } =
      v.potentialConsensusPowerByShares := rfl
  unfold Staking.elect at sound ⊢
  simp only [elected, bondedPower] at sound ⊢
  set power := v.potentialConsensusPowerByShares
  have counted := electing.power
  have seated := electing.seats
  by_cases changed : e.last.get v.operatorAddress ≠ some power
  · simp only [if_pos changed] at sound ⊢
    constructor
    · exact sound
    · rw [applyUpdates_concat, if_neg]
      · exact electing.rostered.take sound (fun c taken => seat_cons found taken) rfl rfl
      · exact powerful
    · intro a p there
      obtain ⟨away, there⟩ := last a p there
      exact (get_set_ne _ _ away).trans there
    · intro a there
      rw [get_delete_ne _ (others a there)]
      refine (electing.untouched a (mem_cons_of_mem _ there)).trans ?_
      exact (get_set_ne _ _ (others a there)).symm
    · exact nodup
    · change _ = (e.ctx.staking.lastValidatorPower.set _ _).sum _
      rw [sum_set, sum_delete, ← here, ← recordedPower, ← counted]
      ring
    · change _ = (e.ctx.staking.lastValidatorPower.set _ _).sum _
      rw [sum_set, sum_delete, ← here, ← recordedSeats, ← seated]
      push_cast
      ring
    · simp
    · exact electing.lastTotalPower
    · exact electing.params
    · exact electing.consensusSet
  · simp only [if_neg changed] at sound ⊢
    rw [not_not] at changed
    have recorded := here.symm.trans changed
    obtain ⟨_, taken⟩ := (electing.rostered.seated v.operatorAddress).mp ⟨power, recorded⟩
    constructor
    · exact sound
    · refine electing.rostered.of_same (fun a => ?_) rfl
      refine (seat_bonded rfl a).trans ?_
      split
      · rename_i same
        rw [same, taken, seat_cons found taken]
      · rfl
    · exact fun a p there => (last a p there).2
    · intro a there
      rw [get_delete_ne _ (others a there)]
      exact electing.untouched a (mem_cons_of_mem _ there)
    · exact nodup
    · change _ = e.ctx.staking.recordedPower
      rw [sum_delete, changed, ← counted]
      simp only [elim_some]
      ring
    · change _ = e.ctx.staking.recordedSeats
      rw [sum_delete, changed, ← seated]
      simp only [elim_some]
      push_cast
      ring
    · exact electing.unchanged
    · exact electing.lastTotalPower
    · exact electing.params
    · exact electing.consensusSet

theorem Sound.nodup_candidates (sound : Sound s) : s.validatorsByPowerDescending.Nodup := by
  rw [validatorsByPowerDescending, nodup_reverse]
  apply List.Nodup.map_on _ (List.Nodup.of_map Prod.fst s.validatorsByPower.nodup_keys)
  rintro ⟨key, addr⟩ listed ⟨key', addr'⟩ listed' same
  obtain rfl : addr = addr' := same
  obtain ⟨_, found, -, atKey⟩ := (sound.power key addr).mp ((mem_pairs _ _ _).mp listed)
  obtain ⟨_, found', -, atKey'⟩ := (sound.power key' addr).mp ((mem_pairs _ _ _).mp listed')
  rw [found] at found'
  cases found'
  rw [← atKey, ← atKey']

variable [Fintype Denom]
  {r r' : Replacement Denom} {start : Context Denom} {updates : List ValidatorUpdate}

theorem Electing.electFrom (chain : Chain Denom) {maxValidators : Nat}
    {e e' : Election Denom} (electing : Electing start e waiting) (atMost : e.count ≤ maxValidators)
    (done : electFrom maxValidators e waiting = .ok e') :
    ∃ waiting', Electing start e' waiting' ∧ e'.count ≤ maxValidators := by
  induction waiting generalizing e with
  | nil =>
    cases done
    exact ⟨[], electing, atMost⟩
  | cons addr _ ih =>
    unfold Staking.electFrom at done
    split at done
    · cases done
      exact ⟨_, electing, atMost⟩
    rename_i below
    obtain ⟨v, looked, done⟩ := bind_eq_ok.mp done
    obtain ⟨_, done⟩ := of_bind done
    split at done
    · cases done
      exact ⟨_, electing, atMost⟩
    rename_i powerful
    have found := mustGetValidator_ok looked
    have stored := (electing.sound.operator addr v found).symm ▸ found
    have once : Tended chain e.ctx (Staking.elect e addr v).ctx := elect_tended electing.sound stored
    exact ih (electing.elect found powerful (once.sound electing.sound))
      (by exact Nat.lt_of_not_le below) done

/-- What is recorded when some validators still have to be discharged. -/
structure Discharging (start ctx : Context Denom) (updates : List ValidatorUpdate) (power seats : Int)
    (pending : List (Address × Int)) : Prop where
  sound : Sound ctx.staking
  rostered : Rostered ctx.staking (applyUpdates start.consensusSet updates)
  recorded : ∀ entry ∈ pending, ctx.staking.lastValidatorPower.get entry.1 = some entry.2
  nodup : (pending.map Prod.fst).Nodup
  power : power + (pending.map Prod.snd).sum = ctx.staking.recordedPower
  seats : seats + pending.length = ctx.staking.recordedSeats
  unchanged : updates = [] → ctx.staking.lastValidatorPower = start.staking.lastValidatorPower
  lastTotalPower : ctx.staking.lastTotalPower = start.staking.lastTotalPower
  params : ctx.staking.params = start.staking.params
  consensusSet : ctx.consensusSet = start.consensusSet

omit [Fintype Denom] in
theorem Electing.discharging {e : Election Denom} (electing : Electing start e waiting) :
    Discharging start e.ctx e.updates e.totalPower e.count e.last.pairs where
  sound := electing.sound
  rostered := electing.rostered
  recorded entry there := electing.last _ _ ((mem_pairs _ _ _).mp there)
  nodup := e.last.nodup_keys
  power := electing.power
  seats := by
    rw [← electing.seats, sum_one]
  unchanged := electing.unchanged
  lastTotalPower := electing.lastTotalPower
  params := electing.params
  consensusSet := electing.consensusSet

theorem Discharging.all (chain : Chain Denom)
    {updates' : List ValidatorUpdate} {power seats : Int} {pending : List (Address × Int)}
    (discharging : Discharging start ctx updates power seats pending)
    (done : (pending.map Prod.fst).foldlM discharge (ctx, updates) = .ok (ctx', updates')) :
    Discharging start ctx' updates' power seats [] := by
  induction pending generalizing ctx updates with
  | nil =>
    cases Except.ok.inj done
    exact discharging
  | cons entry _ ih =>
    obtain ⟨⟨ctx₁, _⟩, once, done⟩ := foldlM_cons_ok.mp done
    obtain ⟨rostered, changed, -, -, recorded, lastTotalPower, params, consensusSet⟩ :=
      discharging.rostered.discharge discharging.sound once
    have tended : Tended chain ctx ctx₁ := discharge_tended discharging.sound once
    have here := discharging.recorded entry mem_cons_self
    obtain ⟨fresh, nodup⟩ := nodup_cons.mp discharging.nodup
    refine ih ⟨tended.sound discharging.sound, rostered, ?_, nodup, ?_, ?_, fun none => absurd none changed,
      lastTotalPower.trans discharging.lastTotalPower, params.trans discharging.params,
      consensusSet.trans discharging.consensusSet⟩ done
    · intro other there
      have away : other.1 ≠ entry.1 := by
        intro same
        exact fresh (same ▸ mem_map_of_mem there)
      rw [recorded, get_delete_ne _ away]
      exact discharging.recorded other (mem_cons_of_mem _ there)
    · have before := discharging.power
      rw [map_cons, sum_cons] at before
      rw [recordedPower, recorded, sum_delete, here, ← recordedPower, ← before, elim_some]
      ring
    · have before := discharging.seats
      rw [length_cons] at before
      rw [recordedSeats, recorded, sum_delete, here, ← recordedSeats, ← before, elim_some]
      push_cast
      ring

/-- The recorded powers, their sum and the set that votes are in step. -/
structure Standing (ctx : Context Denom) : Prop where
  rostered : Rostered ctx.staking ctx.consensusSet
  total : ctx.staking.lastTotalPower = ctx.staking.recordedPower

/-- An election bonds at most as many validators as there are seats. -/
theorem applyAndReturnValidatorSetUpdates_standing (chain : Chain Denom)
    (sound : Sound ctx.staking) (standing : Standing ctx)
    (done : applyAndReturnValidatorSetUpdates ctx = .ok (ctx', updates)) :
    Standing { ctx' with consensusSet := applyUpdates ctx'.consensusSet updates } ∧
    ctx'.staking.WithinSeats := by
  obtain ⟨_, elected, done⟩ := bind_eq_ok.mp done
  obtain ⟨⟨ctx₁, _⟩, discharged, done⟩ := bind_eq_ok.mp done
  have first : Electing ctx ⟨ctx, ctx.staking.lastValidatorPower, [], 0, 0⟩
      ctx.staking.validatorsByPowerDescending :=
    ⟨sound, standing.rostered, fun _ _ there => there, fun _ _ => rfl, sound.nodup_candidates,
      zero_add _, zero_add _, fun _ => rfl, rfl, rfl, rfl⟩
  obtain ⟨_, electing, atMost⟩ := first.electFrom chain (Nat.zero_le _) elected
  have last := electing.discharging.all chain discharged
  have power := last.power
  have seats := last.seats
  simp only [map_nil, sum_nil, length_nil, add_zero] at power seats
  have within : ctx₁.staking.WithinSeats := by
    rw [WithinSeats, ← seats, last.params]
    exact_mod_cast atMost
  simp only at done
  split at done
  · rename_i none
    cases Except.ok.inj done
    refine ⟨⟨last.consensusSet ▸ last.rostered, ?_⟩, within⟩
    rw [last.lastTotalPower, standing.total, recordedPower, recordedPower,
      last.unchanged (isEmpty_iff.mp none)]
  · cases Except.ok.inj done
    refine ⟨⟨?_, power⟩, within⟩
    rw [last.consensusSet]
    exact last.rostered.of_same (fun _ => rfl) rfl

/-- What holds while abandoned validators are replaced: the powers recorded before stay the same
while recorded. -/
structure Replacing (start : Context Denom) (r : Replacement Denom) : Prop where
  sound : Sound r.ctx.staking
  rostered : Rostered r.ctx.staking (applyUpdates start.consensusSet r.updates)
  power : r.totalPower = r.ctx.staking.recordedPower
  agree : ∀ addr old power, start.staking.lastValidatorPower.get addr = some old →
    r.ctx.staking.lastValidatorPower.get addr = some power → power = old
  params : r.ctx.staking.params = start.staking.params
  consensusSet : r.ctx.consensusSet = start.consensusSet

omit [Fintype Denom] in
theorem Replacing.promote (replacing : Replacing start r)
    (found : r.ctx.staking.validators.get addr = some v)
    (powerful : v.potentialConsensusPowerByShares ≠ 0) (idle : ¬v.isBonded)
    (candidate : start.staking.lastValidatorPower.get addr = none) :
    Replacing start (promote r addr v) ∧
    (promote r addr v).ctx.staking.recordedSeats = r.ctx.staking.recordedSeats + 1 ∧
    (∀ a, r.ctx.staking.seat a ≠ none → (promote r addr v).ctx.staking.seat a ≠ none) := by
  obtain rfl := replacing.sound.operator addr v found
  obtain ⟨index, queue, _, bonded⟩ := bondValidator_eq r.ctx v
  have empty : r.ctx.staking.seat v.operatorAddress = none := by
    rw [seat_of_get found, Validator.seat, if_neg idle]
  have free := replacing.rostered.none_of_empty empty
  have restated := bondValidator_restated replacing.sound found
  have bondedPower : Validator.consensusPowerByShares { v with status := .bonded } =
      v.potentialConsensusPowerByShares := rfl
  have sound : Sound (Staking.promote r v.operatorAddress v).ctx.staking :=
    restated.sound.of_same rfl rfl rfl rfl
  unfold Staking.promote at sound ⊢
  simp only [bonded, bondedPower] at sound ⊢
  refine ⟨⟨sound, ?_, ?_, ?_, replacing.params, replacing.consensusSet⟩, ?_, ?_⟩
  · rw [applyUpdates_concat, if_neg]
    · refine replacing.rostered.take sound (fun c taken => ?_) rfl rfl
      rw [empty] at taken
      cases taken
    · exact powerful
  · change _ = (r.ctx.staking.lastValidatorPower.set _ _).sum _
    rw [sum_set, free, ← recordedPower, ← replacing.power, elim_none, sub_zero]
  · intro a old power recorded there
    refine replacing.agree a old power recorded ?_
    have away : a ≠ v.operatorAddress := by
      rintro rfl
      rw [candidate] at recorded
      cases recorded
    exact (get_set_ne _ _ away).symm.trans there
  · change (r.ctx.staking.lastValidatorPower.set _ _).sum _ = _
    rw [sum_set, free, ← recordedSeats, elim_none, sub_zero]
  · intro a taken
    refine ne_of_eq_of_ne (seat_bonded rfl a) ?_
    split
    · simp
    · exact taken

omit [Fintype Denom] in
theorem Replacing.promoteFrom {count : Nat} {addrs : List Address} (replacing : Replacing start r)
    (done : promoteFrom start.staking.lastValidatorPower count r addrs = .ok r') :
    Replacing start r' ∧ r'.ctx.staking.recordedSeats ≤ r.ctx.staking.recordedSeats + count ∧
    (∀ a, r.ctx.staking.seat a ≠ none → r'.ctx.staking.seat a ≠ none) := by
  induction addrs generalizing count r with
  | nil =>
    cases count <;>
    · cases done
      exact ⟨replacing, le_add_of_nonneg_right (Nat.cast_nonneg _), fun _ taken => taken⟩
  | cons _ _ ih =>
    cases count with
    | zero =>
      cases done
      exact ⟨replacing, le_add_of_nonneg_right (Nat.cast_nonneg _), fun _ taken => taken⟩
    | succ =>
      unfold Staking.promoteFrom at done
      split at done
      · exact ih replacing done
      rename_i candidate
      obtain ⟨_, looked, done⟩ := bind_eq_ok.mp done
      split at done
      · exact ih replacing done
      rename_i powerful
      split at done
      · cases done
      rename_i idle
      obtain ⟨once, seats, seated⟩ := replacing.promote (mustGetValidator_ok looked)
        powerful idle candidate
      obtain ⟨all, atMost, kept⟩ := ih once done
      refine ⟨all, ?_, fun a taken => kept a (seated a taken)⟩
      rw [seats] at atMost
      push_cast
      linarith

theorem Replacing.dischargeAbandoned (chain : Chain Denom) (replacing : Replacing start r)
    (done : dischargeAbandoned start.staking.lastValidatorPower r addr = .ok r') :
    Replacing start r' ∧ (r.ctx.staking.seat addr ≠ none →
      r'.ctx.staking.recordedSeats + 1 = r.ctx.staking.recordedSeats) ∧
    ∀ a, a ≠ addr → r'.ctx.staking.seat a = r.ctx.staking.seat a := by
  obtain ⟨_, looked, done⟩ := bind_eq_ok.mp done
  have found := mustGetValidator_ok looked
  split at done
  · obtain ⟨⟨ctx₁, _⟩, discharged, done⟩ := bind_eq_ok.mp done
    obtain ⟨oldPower, recordedBefore, done⟩ := bind_eq_ok.mp done
    cases done
    obtain ⟨rostered, -, taken, seat, recorded, -, params, consensusSet⟩ :=
      replacing.rostered.discharge replacing.sound discharged
    have tended : Tended chain r.ctx ctx₁ := discharge_tended replacing.sound discharged
    obtain ⟨power, here⟩ := (replacing.rostered.seated addr).mpr taken
    obtain rfl := replacing.agree addr oldPower power (orPanic_eq_ok.mp recordedBefore) here
    refine ⟨⟨tended.sound replacing.sound, rostered, ?_, ?_, params.trans replacing.params,
      consensusSet.trans replacing.consensusSet⟩, fun _ => ?_, fun a away => ?_⟩
    · change r.totalPower - _ = ctx₁.staking.recordedPower
      rw [recordedPower, recorded, sum_delete, here, ← recordedPower,
        ← replacing.power, elim_some]
    · intro a old p before there
      change ctx₁.staking.lastValidatorPower.get a = some p at there
      rw [recorded] at there
      exact replacing.agree a old p before (get_delete_eq_some.mp there).2
    · change ctx₁.staking.recordedSeats + 1 = _
      rw [recordedSeats, recorded, sum_delete, here, ← recordedSeats,
        elim_some, sub_add_cancel]
    · exact (seat a).trans (if_neg away)
  · rename_i idle
    cases done
    refine ⟨replacing, fun taken => ?_, fun _ _ => rfl⟩
    rw [seat_of_get found, Validator.seat, if_neg idle] at taken
    exact absurd rfl taken

theorem Replacing.dischargeAll (chain : Chain Denom) {abandoned : List Address}
    (replacing : Replacing start r)
    (done : abandoned.foldlM (Staking.dischargeAbandoned start.staking.lastValidatorPower) r = .ok r') :
    Replacing start r' ∧ (abandoned.Nodup → (∀ addr ∈ abandoned, r.ctx.staking.seat addr ≠ none) →
      r'.ctx.staking.recordedSeats + abandoned.length = r.ctx.staking.recordedSeats) := by
  induction abandoned generalizing r with
  | nil =>
    cases done
    exact ⟨replacing, fun _ _ => add_zero _⟩
  | cons addr rest ih =>
    obtain ⟨r₁, once, done⟩ := foldlM_cons_ok.mp done
    obtain ⟨first, seats, seat⟩ := replacing.dischargeAbandoned chain once
    obtain ⟨all, counted⟩ := ih first done
    refine ⟨all, fun nodup taken => ?_⟩
    obtain ⟨fresh, nodup⟩ := nodup_cons.mp nodup
    have later : ∀ a ∈ rest, r₁.ctx.staking.seat a ≠ none := by
      intro a there
      have away : a ≠ addr := by
        rintro rfl
        exact fresh there
      rw [seat a away]
      exact taken a (mem_cons_of_mem _ there)
    rw [← seats (taken addr mem_cons_self), ← counted nodup later, length_cons]
    push_cast
    ring

/-- Every abandoned validator is bonded and was abandoned once. -/
def Store.AbandonedOnce (s : Store) : Prop :=
  s.abandonedValidatorAddrs.Nodup ∧ ∀ addr ∈ s.abandonedValidatorAddrs, s.seat addr ≠ none

/-- Replacing abandoned validators takes no more seats than it gives up, unless one was abandoned
twice or had no seat. -/
theorem kickOutAndReturnValidatorSetUpdates_standing (chain : Chain Denom)
    (sound : Sound ctx.staking) (standing : Standing ctx)
    (done : kickOutAndReturnValidatorSetUpdates ctx = .ok (ctx', updates)) :
    Standing { ctx' with consensusSet := applyUpdates ctx'.consensusSet updates } ∧
    (ctx.staking.AbandonedOnce → ctx'.staking.recordedSeats ≤ ctx.staking.recordedSeats) ∧
    ctx'.staking.params = ctx.staking.params := by
  obtain ⟨_, promoted, done⟩ := bind_eq_ok.mp done
  obtain ⟨r₁, discharged, done⟩ := bind_eq_ok.mp done
  cases Except.ok.inj done
  have first : Replacing ctx ⟨ctx, [], ctx.staking.lastTotalPower⟩ :=
    ⟨sound, standing.rostered, standing.total,
      fun _ _ _ before now => Option.some.inj (now.symm.trans before), rfl, rfl⟩
  obtain ⟨second, _, kept⟩ := first.promoteFrom promoted
  obtain ⟨last, counted⟩ := second.dischargeAll chain discharged
  refine ⟨⟨?_, last.power⟩, fun once => ?_, last.params⟩
  · rw [last.consensusSet]
    exact last.rostered.of_same (fun _ => rfl) rfl
  · have seats := counted once.1 fun addr there => kept addr (once.2 addr there)
    change r₁.ctx.staking.recordedSeats ≤ _
    linarith

variable {chain : Chain Denom} {ctx ctx' : Context Denom}

theorem updateValidatorSet_standing (chain : Chain Denom) (sound : Sound ctx.staking)
    (standing : Standing ctx) (done : updateValidatorSet ctx = .ok (ctx', updates)) :
    Standing { ctx' with consensusSet := applyUpdates ctx'.consensusSet updates } ∧
    (ctx.staking.WithinSeats → isEndOfEpoch ctx = true ∨ ctx.staking.AbandonedOnce →
      ctx'.staking.WithinSeats) := by
  unfold updateValidatorSet at done
  split at done
  · obtain ⟨updated, within⟩ := applyAndReturnValidatorSetUpdates_standing chain
      (by exact sound.of_same rfl rfl rfl rfl)
      (by exact ⟨standing.rostered.of_same (fun _ => rfl) rfl, standing.total⟩) done
    exact ⟨updated, fun _ _ => within⟩
  rename_i within
  split at done
  · obtain ⟨updated, seats, params⟩ :=
      kickOutAndReturnValidatorSetUpdates_standing chain sound standing done
    refine ⟨updated, fun before once => ?_⟩
    rw [WithinSeats, params]
    exact (seats (once.resolve_left within)).trans before
  · cases Except.ok.inj done
    exact ⟨standing, fun before _ => before⟩

variable [DecidableEq Denom]

omit [Fintype Denom] [DecidableEq Denom] in
theorem Midway.seated {short : Address → Dec} {stale : Option Address}
    {added : Dec} (midway : Midway chain start short stale added ctx) :
    Seated start.staking ctx.staking :=
  ⟨fun addr => seat_reshared (midway.validators addr), (congrArg (·.lastValidatorPower) midway.rest :),
    (congrArg (·.lastTotalPower) midway.rest :), (congrArg (·.params) midway.rest :)⟩

theorem Effect.seated {msg : Msg Denom} (books : Books ctx.staking)
    (effect : Effect chain ctx msg ctx') :
    Seated ctx.staking ctx'.staking ∧ ctx'.consensusSet = ctx.consensusSet := by
  cases effect with
  | created _ _ _ _ seated _ _ consensusSet =>
    exact ⟨seated, consensusSet⟩
  | @edited addr rate v commission found sound =>
    have stored := (books.sound.operator addr v found).symm ▸ found
    refine ⟨⟨fun a => ?_, rfl, rfl, rfl⟩, rfl⟩
    exact seat_rewrite { v with commission } stored rfl rfl a
  | deposited sent midway => exact ⟨midway.seated, midway.consensusSet⟩
  | @withdrawn del amount mid funds positive sent midway =>
    obtain ⟨_, _, same⟩ :=
      addUndelegation_eq mid.staking del amount.2 ctx.completionTime
    have seated : Seated ctx.staking mid.staking := midway.seated
    refine ⟨seated.trans ?_, midway.consensusSet⟩
    rw [same]
    exact ⟨fun _ => rfl, rfl, rfl, rfl⟩
  | reshared midway => exact ⟨midway.seated, midway.consensusSet⟩
  | @destroyed del v funds slashing after found own sent dismissed =>
    have stored := (books.sound.operator del v found).symm ▸ found
    have overwritten : Seated ctx.staking
        (ctx.staking.overwriteUndelegation del v.minSelfDelegation ctx.completionTime) :=
      ⟨fun _ => rfl, rfl, rfl, rfl⟩
    have seated := dismissValidator_seated (v := v) (by exact stored) dismissed
    obtain ⟨-, -, -, -, consensusSet, -⟩ := dismissed_ok books.sound found own dismissed
    exact ⟨overwritten.trans seated, consensusSet⟩
  | freed restated seated => exact ⟨seated, restated.consensusSet⟩
  | paid same =>
    rw [same]
    exact ⟨Seated.refl _, rfl⟩

omit [Fintype Denom] [DecidableEq Denom] in
theorem Standing.of_seated (standing : Standing ctx) (seated : Seated ctx.staking ctx'.staking)
    (consensusSet : ctx'.consensusSet = ctx.consensusSet) : Standing ctx' := by
  refine ⟨?_, ?_⟩
  · rw [consensusSet]
    exact standing.rostered.of_same seated.seat seated.lastValidatorPower
  · rw [seated.lastTotalPower, standing.total, recordedPower, recordedPower,
      seated.lastValidatorPower]

/-- Within an epoch a block ends with validators abandoned once and with a seat to give up, and the
number of seats is never lowered. -/
def SeatsFree (ctx : Context Denom) : Op Denom → Prop
  | .endBlock => isEndOfEpoch ctx = true ∨ ctx.staking.AbandonedOnce
  | .govern (.changeParams params) => ctx.staking.params.maxValidators ≤ params.maxValidators
  | _ => True

omit [DecidableEq Denom] in
theorem handleProposal_maxValidators (chain : Chain Denom) {proposal : Proposal Denom}
    (free : SeatsFree ctx (.govern proposal)) : ctx.staking.params.maxValidators ≤
      (handleProposal chain ctx proposal).staking.params.maxValidators := by
  cases proposal with
  | changeParams => exact free
  | changeDistributionType =>
    simp only [handleProposal, handleChangeDistributionTypeProposal]
    split <;> exact le_rfl
  | withdrawRewardEnabled | rewardTruncatePrecision =>
    simp only [handleProposal]
    split <;> exact le_rfl
  | communityPoolSpend =>
    simp only [handleProposal]
    split
    · rename_i spent done
      obtain ⟨_, done⟩ := of_bind done
      obtain ⟨_, done⟩ := of_bind done
      cases done
      exact le_rfl
    · exact le_rfl

/-- The end of a block updates the recorded powers and the set that votes together. -/
theorem endBlock_standing (books : Books ctx.staking) (standing : Standing ctx)
    (done : step chain ctx .endBlock = .ok ctx') : Standing ctx' ∧
    (ctx.staking.WithinSeats → SeatsFree ctx (.endBlock) → ctx'.staking.WithinSeats) := by
  obtain ⟨⟨_, _⟩, ended, done⟩ := bind_eq_ok.mp done
  cases done
  obtain ⟨⟨ctx₁, updates⟩, updated, ended⟩ := bind_eq_ok.mp ended
  obtain ⟨ctx₂, unbonded, ended⟩ := bind_eq_ok.mp ended
  obtain ⟨rfl, rfl⟩ := Prod.mk.inj (Except.ok.inj ended)
  obtain ⟨standing, within⟩ := updateValidatorSet_standing chain books.sound standing updated
  have first : Tended chain ctx ctx₁ := updateValidatorSet_tended books.sound updated
  have sound : Sound { ctx₁.staking with abandonedValidatorAddrs := [] } :=
    (first.sound books.sound).of_same rfl rfl rfl rfl
  obtain ⟨third, second⟩ := unbondAllMatureValidatorQueue_kept (by exact sound) unbonded
  obtain ⟨_, _, _, _, same⟩ := completeMatureUndelegations_same chain ctx₂
  have seated : Seated ctx₁.staking (completeMatureUndelegations chain ctx₂).staking := by
    have cleared : Seated ctx₁.staking { ctx₁.staking with abandonedValidatorAddrs := [] } :=
      ⟨fun _ => rfl, rfl, rfl, rfl⟩
    refine (cleared.trans second).trans ?_
    rw [same]
    exact ⟨fun _ => rfl, rfl, rfl, rfl⟩
  have consensusSet : (completeMatureUndelegations chain ctx₂).consensusSet = ctx₁.consensusSet := by
    rw [same]
    exact third.context.2.2.1
  refine ⟨standing.of_seated seated (by rw [consensusSet]), fun before free => ?_⟩
  rw [WithinSeats, recordedSeats, seated.lastValidatorPower, seated.params]
  exact within before free

theorem step_standing {op : Op Denom} (books : Books ctx.staking) (standing : Standing ctx)
    (done : step chain ctx op = .ok ctx') : Standing ctx' ∧
    (ctx.staking.WithinSeats → SeatsFree ctx op → ctx'.staking.WithinSeats) := by
  have kept : Seated ctx.staking ctx'.staking → ctx'.consensusSet = ctx.consensusSet →
      Standing ctx' ∧ (ctx.staking.WithinSeats → SeatsFree ctx op → ctx'.staking.WithinSeats) := by
    intro seated consensusSet
    refine ⟨standing.of_seated seated consensusSet, fun before _ => ?_⟩
    rw [WithinSeats, recordedSeats, seated.lastValidatorPower, seated.params]
    exact before
  cases op with
  | beginBlock =>
    obtain ⟨_, -, tended, seated⟩ := beginBlocker_kept books.sound done
    exact kept seated tended.context.2.2.1
  | deliver msg =>
    cases done
    rcases deliver_cases chain ctx msg with failed | ⟨valid, handled⟩
    · rw [failed] at kept ⊢
      exact kept (Seated.refl _) rfl
    · obtain ⟨seated, consensusSet⟩ := (dispatch_effect books valid handled).seated books
      exact kept seated consensusSet
  | endBlock => exact endBlock_standing books standing done
  | govern proposal =>
    cases done
    obtain ⟨_, _, same, -⟩ := handleProposal_same chain ctx proposal
    refine ⟨?_, fun before free => ?_⟩
    · rw [same]
      exact ⟨standing.rostered.of_same (fun _ => rfl) rfl, standing.total⟩
    have atLeast := handleProposal_maxValidators chain free
    have seats : (handleProposal chain ctx proposal).staking.recordedSeats =
        ctx.staking.recordedSeats := by
      rw [same]
      rfl
    rw [WithinSeats, seats]
    exact le_trans before (by exact_mod_cast atLeast)
  | others =>
    cases done
    exact kept (Seated.refl _) rfl

variable {start : Context Denom} {ops : List (Op Denom)}

omit [Fintype Denom] [DecidableEq Denom] in
theorem Genesis.standing (genesis : Genesis start) : Standing start := by
  have empty : ∀ addr, start.staking.seat addr = none := by
    intro addr
    apply seat_of_none
    rw [genesis.validators, get_empty]
  refine ⟨⟨fun addr => ?_, fun cons power => ?_⟩, ?_⟩
  · simp [genesis.lastValidatorPower, empty]
  · simp [genesis.consensusSet, empty]
  · rw [genesis.lastTotalPower, recordedPower, genesis.lastValidatorPower, sum_empty]

theorem standing_of_run (genesis : Genesis start) (done : run chain start ops = .ok ctx) :
    Standing ctx :=
  (PartialRun.run_keeps (fun ctx => Books ctx.staking ∧ Standing ctx)
    (fun _ _ _ kept once =>
      ⟨(step_accounted kept.1 once).books, (step_standing kept.1 kept.2 once).1⟩)
    ⟨genesis.books, genesis.standing⟩ done).2

theorem seats_of_run (genesis : Genesis start) (done : run chain start ops = .ok ctx)
    (free : PartialRun.Guarded (step chain) SeatsFree start ops) :
    ctx.staking.WithinSeats := by
  have none_yet : start.staking.WithinSeats := by
    rw [WithinSeats, recordedSeats, genesis.lastValidatorPower]
    exact Nat.cast_nonneg _
  exact (@PartialRun.Guarded.keeps _ _ _ _ _ (fun ctx => Books ctx.staking ∧ Standing ctx ∧
      ctx.staking.WithinSeats)
    (fun _ _ _ kept free once => ⟨(step_accounted kept.1 once).books,
      (step_standing kept.1 kept.2.1 once).1, (step_standing kept.1 kept.2.1 once).2 kept.2.2 free⟩)
    _ _ _ free ⟨genesis.books, genesis.standing, none_yet⟩ done).2.2

/-- The bonded validators in every reached context. Their powers are recorded, the recorded total is
the sum, and the consensus engine votes with exactly these powers. There are no more than seats as
long as no block replaces a validator that gives up no seat. -/
theorem validator_set_updates (genesis : Genesis start) (done : run chain start ops = .ok ctx) :
    (∀ addr, (∃ v, ctx.staking.validators.get addr = some v ∧ v.status = .bonded) ↔
      ∃ power, ctx.staking.lastValidatorPower.get addr = some power) ∧
    ctx.staking.lastTotalPower = ctx.staking.lastValidatorPower.sum (fun _ power => power) ∧
    (∀ cons power, ctx.consensusSet.get cons = some power ↔
      ∃ addr v, ctx.staking.validators.get addr = some v ∧ v.status = .bonded ∧
        v.consAddress = cons ∧ ctx.staking.lastValidatorPower.get addr = some power) ∧
    (PartialRun.Guarded (step chain) SeatsFree start ops →
      ctx.staking.lastValidatorPower.keys.length ≤ ctx.staking.params.maxValidators) := by
  have standing := standing_of_run genesis done
  refine ⟨fun addr => ?_, standing.total, fun cons power => ?_, fun free => ?_⟩
  · rw [standing.rostered.seated]
    simp [seat_eq_some]
  · rw [standing.rostered.votes]
    simp only [seat_eq_some]
    constructor
    · rintro ⟨addr, ⟨v, found, bonded, same⟩, recorded⟩
      exact ⟨addr, v, found, bonded, same, recorded⟩
    · rintro ⟨addr, v, found, bonded, same, recorded⟩
      exact ⟨addr, ⟨v, found, bonded, same⟩, recorded⟩
  · have within := seats_of_run genesis done free
    rw [WithinSeats, recordedSeats, sum_one] at within
    rw [SortedMap.keys, length_map]
    exact_mod_cast within

end

instance (ctx : Context Denom) : ∀ op, Decidable (SeatsFree ctx op)
  | .endBlock => inferInstanceAs (Decidable (_ ∨ (List.Nodup _ ∧ ∀ addr ∈ _, _)))
  | .govern (.changeParams _) => inferInstanceAs (Decidable (_ ≤ _))
  | .govern (.changeDistributionType _) => .isTrue trivial
  | .govern (.withdrawRewardEnabled _) => .isTrue trivial
  | .govern (.rewardTruncatePrecision _) => .isTrue trivial
  | .govern (.communityPoolSpend _ _) => .isTrue trivial
  | .beginBlock _ _ _ => .isTrue trivial
  | .deliver _ => .isTrue trivial
  | .others _ _ => .isTrue trivial

/-- Four validators for two seats, up to the first block after an election. -/
def electionRun : List (Op Unit) :=
  [.beginBlock 5 [] [], .deliver (.createValidator 1 1 11 ((), 10)),
    .deliver (.createValidator 2 2 12 ((), 10)), .deliver (.createValidator 3 3 13 ((), 10)),
    .deliver (.createValidator 4 4 14 ((), 10)), .endBlock, .beginBlock 5 [] [], .endBlock]

/-- Two infractions of one validator in one block promote two candidates. -/
theorem seat_taken_twice : ∃ ctx, run oneTokenChain smallGenesis (electionRun ++
      [.beginBlock 5 [⟨11, 1, true⟩, ⟨12, 1, false⟩] [⟨11, 1010⟩], .endBlock]) = .ok ctx ∧
    (ctx.staking.params.maxValidators, ctx.staking.lastValidatorPower.pairs,
      ctx.consensusSet.pairs) = (2, [(2, 1), (3, 1), (4, 1)], [(12, 1), (13, 1), (14, 1)]) :=
  Fallible.exists_ok_of_map (by decide +kernel)

theorem validator_set_updates_replacement : ∃ ctx, run oneTokenChain smallGenesis (electionRun ++
      [.beginBlock 5 [⟨11, 1, true⟩, ⟨12, 1, false⟩] [], .endBlock]) = .ok ctx ∧
    ctx.staking.lastValidatorPower.pairs = [(2, 1), (3, 1)] ∧
    ctx.staking.lastValidatorPower.keys.length ≤ ctx.staking.params.maxValidators := by
  have reached : ∃ ctx, run oneTokenChain smallGenesis (electionRun ++
      [.beginBlock 5 [⟨11, 1, true⟩, ⟨12, 1, false⟩] [], .endBlock]) = .ok ctx ∧
      ctx.staking.lastValidatorPower.pairs = [(2, 1), (3, 1)] :=
    Fallible.exists_ok_of_map (by decide +kernel)
  obtain ⟨ctx, done, powers⟩ := reached
  exact ⟨ctx, done, powers,
    (validator_set_updates smallGenesis_genesis done).2.2.2 (by decide +kernel)⟩

end Exchain.Staking
