import Exchain.Staking.Tally
import Exchain.Distribution.Payments

namespace Exchain.Staking

open SortedMap Store List
open Distribution (Chain Header Funds Account RewardsMoved)
open Fallible (bind_eq_ok foldlM_cons_ok)

variable (s : Store)

/-- The store without the validators, their indexes and the shares. -/
def Store.frame : Store :=
  { s with validators := ∅, validatorsByConsAddr := ∅, validatorsByPower := ∅, shares := ∅ }

inductive Reshared : Option Validator → Option Validator → Prop where
  | absent : Reshared none none
  | moved (v : Validator) (x : Dec) : Reshared (some v) (some { v with delegatorShares := x })
  | gone (v : Validator) (unbonded : v.status = .unbonded) (dismissed : v.minSelfDelegation = 0) :
      Reshared (some v) none

theorem Reshared.refl (v : Option Validator) : Reshared v v := by
  cases v with
  | none => exact .absent
  | some v => exact .moved v v.delegatorShares

theorem Reshared.trans {u v w : Option Validator} (first : Reshared u v) (second : Reshared v w) :
    Reshared u w := by
  cases first with
  | absent => exact second
  | gone v unbonded dismissed =>
    cases second
    exact .gone v unbonded dismissed
  | moved v x =>
    generalize eq : some { v with delegatorShares := x } = middle at second
    cases second with
    | absent => cases eq
    | moved w y =>
      cases eq
      exact .moved v y
    | gone w unbonded dismissed =>
      cases eq
      exact .gone v unbonded dismissed

structure SharesMoved (s s' : Store) : Prop where
  frame : s'.frame = s.frame
  validators : ∀ addr, Reshared (s.validators.get addr) (s'.validators.get addr)

theorem SharesMoved.refl : SharesMoved s s := ⟨rfl, fun _ => Reshared.refl _⟩

theorem SharesMoved.trans {s t u : Store} (first : SharesMoved s t) (second : SharesMoved t u) :
    SharesMoved s u :=
  ⟨second.frame.trans first.frame, fun addr => (first.validators addr).trans (second.validators addr)⟩

section

variable {s s' : Store}

theorem SharesMoved.delegators (moved : SharesMoved s s') : s'.delegators = s.delegators :=
  (congrArg (·.delegators) moved.frame :)

theorem SharesMoved.proxyBindings (moved : SharesMoved s s') : s'.proxyBindings = s.proxyBindings :=
  (congrArg (·.proxyBindings) moved.frame :)

end

variable (v : Validator)
include v

theorem moveShares_frame (x : Dec) : (s.moveShares v x).frame = s.frame := by
  simp only [moveShares, setValidatorByPowerIndex]
  split
  · rfl
  · rfl

theorem moveShares_validators (x : Dec) : (s.moveShares v x).validators =
      s.validators.set v.operatorAddress { v with delegatorShares := x } := by
  simp only [moveShares, setValidatorByPowerIndex]
  split
  · rfl
  · rfl

theorem moveShares_shares (x : Dec) : (s.moveShares v x).shares = s.shares := by
  simp only [moveShares, setValidatorByPowerIndex]
  split
  · rfl
  · rfl

theorem moveShares_byCons (x : Dec) :
    (s.moveShares v x).validatorsByConsAddr = s.validatorsByConsAddr := by
  simp only [moveShares, setValidatorByPowerIndex]
  split
  · rfl
  · rfl

omit v

/-- The entry of a validator in the power index after the validator was written anew. -/
theorem get_setValidatorByPowerIndex (v v' : Validator) (key : PowerKey)
    (operator : v'.operatorAddress = v.operatorAddress) :
    ((((s.deleteValidatorByPowerIndex v).setValidator v').setValidatorByPowerIndex
      v').validatorsByPower).get key =
      if v'.jailed = false ∧ key = v'.powerKey then some v.operatorAddress
      else if key = v.powerKey then none else s.validatorsByPower.get key := by
  unfold setValidatorByPowerIndex
  split
  · rename_i jailed
    rw [if_neg fun entry => by simp [jailed] at entry]
    exact get_delete _ _ _
  · rename_i free
    change ((s.validatorsByPower.delete v.powerKey).set v'.powerKey v'.operatorAddress).get key = _
    rw [get_set, get_delete, operator]
    simp [free]

variable {del : Address} {v : Validator} {x : Dec} {s : Store}

theorem SharesMoved.moveShares {s' : Store}
    (stored : s.validators.get v.operatorAddress = some v) (frame : s'.frame = s.frame)
    (validators : s'.validators = s.validators) : SharesMoved s (s'.moveShares v x) where
  frame := (moveShares_frame s' v x).trans frame
  validators addr := by
    rw [moveShares_validators, validators, get_set]
    split
    · rename_i same
      rw [same, stored]
      exact .moved v x
    · exact Reshared.refl _

theorem Sound.setShares_moveShares (sound : Sound s) (del : Address)
    {y : Dec} (stored : s.validators.get v.operatorAddress = some v) (positive : 0 < x)
    (sum : y = v.delegatorShares - (s.shares.get (toLex (v.operatorAddress, del))).getD 0 + x) :
    Sound ((s.setShares del v.operatorAddress x).moveShares v y) := by
  have before := sound.tally v.operatorAddress v stored
  apply sound.replace { v with delegatorShares := y } stored rfl rfl
  · rw [moveShares_validators]
    rfl
  · rw [moveShares_byCons]
    rfl
  · intro key
    exact get_setValidatorByPowerIndex _ v { v with delegatorShares := y } key rfl
  · intro addr elsewhere
    have same := sharesOn_setShares s del v.operatorAddress addr x
    rw [if_neg elsewhere, add_zero] at same
    rw [sharesOn, moveShares_shares]
    exact same
  · have here := sharesOn_setShares s del v.operatorAddress v.operatorAddress x
    rw [if_pos rfl] at here
    rw [sharesOn, moveShares_shares, ← sharesOn, here]
    change y = v.ownShare + _
    rw [sum, before]
    ring
  · rw [moveShares_shares]
    exact forall_set positive fun key _ => sound.shares_pos key
  · rw [moveShares_shares]
    exact forall_set (.inl rfl) fun key _ z found => .inr ⟨z, found⟩

theorem Sound.deleteShares_moveShares (sound : Sound s) (del : Address)
    {y : Dec} (stored : s.validators.get v.operatorAddress = some v)
    (sum : y = v.delegatorShares - (s.shares.get (toLex (v.operatorAddress, del))).getD 0) :
    Sound ((s.deleteShares v.operatorAddress del).moveShares v y) := by
  have before := sound.tally v.operatorAddress v stored
  apply sound.replace { v with delegatorShares := y } stored rfl rfl
  · rw [moveShares_validators]
    rfl
  · rw [moveShares_byCons]
    rfl
  · intro key
    exact get_setValidatorByPowerIndex _ v { v with delegatorShares := y } key rfl
  · intro addr elsewhere
    have same := sharesOn_deleteShares s del v.operatorAddress addr
    rw [if_neg elsewhere, sub_zero] at same
    rw [sharesOn, moveShares_shares]
    exact same
  · have here := sharesOn_deleteShares s del v.operatorAddress v.operatorAddress
    rw [if_pos rfl] at here
    rw [sharesOn, moveShares_shares, ← sharesOn, here]
    change y = v.ownShare + _
    rw [sum, before]
    ring
  · intro key z found
    rw [moveShares_shares, deleteShares, get_delete] at found
    split at found
    · cases found
    exact sound.shares_pos key z found
  · intro key z found
    rw [moveShares_shares, deleteShares, get_delete] at found
    split at found
    · cases found
    exact .inr ⟨z, found⟩

/-- What a loop over validators did to the entries of one delegator. -/
def entriesSet (del : Address) (addrs : List Address) (x : Option Dec) (s s' : Store) : Prop :=
  ∀ key, s'.shares.get key =
    if (ofLex key).2 = del ∧ (ofLex key).1 ∈ addrs then x else s.shares.get key

theorem entriesSet_cons {addr : Address} {addrs : List Address} {x : Option Dec}
    {t u : Store} (first : ∀ key, t.shares.get key =
      if key = toLex (addr, del) then x else s.shares.get key)
    (rest : entriesSet del addrs x t u) : entriesSet del (addr :: addrs) x s u := by
  intro key
  rw [rest key, first key]
  by_cases owner : (ofLex key).2 = del
  · by_cases here : (ofLex key).1 = addr
    · have same : key = toLex (addr, del) := by
        rw [← owner, ← here]
        rfl
      by_cases listed : (ofLex key).1 ∈ addrs
      · rw [if_pos ⟨owner, listed⟩, if_pos ⟨owner, mem_cons_of_mem addr listed⟩]
      · rw [if_neg fun both => listed both.2, if_pos same,
          if_pos ⟨owner, here ▸ mem_cons_self⟩]
    · have differ : key ≠ toLex (addr, del) := by
        rintro rfl
        exact here rfl
      rw [if_neg differ]
      simp [here]
  · have differ : key ≠ toLex (addr, del) := by
      rintro rfl
      exact owner rfl
    rw [if_neg differ]
    simp [owner]

section

variable {vals : List Validator} {s' : Store} (positive : 0 < x) (sound : Sound s)
  (distinct : (vals.map (·.operatorAddress)).Nodup)
  (stored : ∀ v ∈ vals, s.validators.get v.operatorAddress = some v)

include positive sound distinct stored

/-- A loop that gives a delegator the same entry on every validator of a list, where its entries
were all the same. -/
theorem share_loop {f : Store → Validator → Except Failure Store} {old : Option Dec}
    (step : ∀ s v t, f s v = .ok t → t = (s.setShares del v.operatorAddress x).moveShares v
      (v.delegatorShares - old.getD 0 + x))
    (entries : ∀ v ∈ vals, s.shares.get (toLex (v.operatorAddress, del)) = old)
    (done : vals.foldlM f s = .ok s') :
    Sound s' ∧ SharesMoved s s' ∧ entriesSet del (vals.map (·.operatorAddress)) (some x) s s' := by
  induction vals generalizing s with
  | nil =>
    obtain rfl := Except.ok.inj done
    exact ⟨sound, SharesMoved.refl s, fun key => by simp⟩
  | cons v rest ih =>
    obtain ⟨t, first, later⟩ := foldlM_cons_ok.mp done
    obtain rfl := step s v t first
    have current := stored v mem_cons_self
    have before := entries v mem_cons_self
    obtain ⟨apart, distinct⟩ := nodup_cons.mp distinct
    have differ := fun w inside same => apart (mem_map.mpr ⟨w, inside, same⟩)
    have kept := sound.setShares_moveShares del current positive (by rw [before])
    obtain ⟨after, moved, set⟩ := ih kept distinct
      (fun w inside => by
        rw [moveShares_validators, get_set_ne _ _ (differ w inside)]
        exact stored w (mem_cons_of_mem v inside))
      (fun w inside => by
        rw [moveShares_shares, setShares, get_set_ne]
        · exact entries w (mem_cons_of_mem v inside)
        · intro same
          exact differ w inside (congrArg (fun key => (ofLex key).1) same)) later
    have once : SharesMoved s ((s.setShares del v.operatorAddress x).moveShares v
        (v.delegatorShares - old.getD 0 + x)) := SharesMoved.moveShares current rfl rfl
    refine ⟨after, once.trans moved, entriesSet_cons ?_ set⟩
    intro key
    rw [moveShares_shares, setShares, get_set]

theorem updateValidatorShares_loop {last : Dec}
    (entries : ∀ v ∈ vals, s.shares.get (toLex (v.operatorAddress, del)) = some last)
    (done : vals.foldlM (updateValidatorShares del last x) s = .ok s') :
    Sound s' ∧ SharesMoved s s' ∧ entriesSet del (vals.map (·.operatorAddress)) (some x) s s' := by
  apply share_loop positive sound distinct stored _ entries done
  intro s v t once
  unfold updateValidatorShares at once
  split at once
  · cases once
  exact (Except.ok.inj once).symm

theorem addShares_loop (del : Address)
    (entries : ∀ v ∈ vals, s.shares.get (toLex (v.operatorAddress, del)) = none) :
    Sound (vals.foldl (addShares del x) s) ∧ SharesMoved s (vals.foldl (addShares del x) s) ∧
      entriesSet del (vals.map (·.operatorAddress)) (some x) s (vals.foldl (addShares del x) s) := by
  apply share_loop positive sound distinct stored _ entries
    (Fallible.foldlM_ok (addShares del x) s vals)
  intro s v t once
  rw [← Except.ok.inj once, addShares, Option.getD_none, sub_zero]

end

variable {Denom : Type}

structure Moved (ctx ctx' : Context Denom) : Prop where
  header : ctx'.header = ctx.header
  events : ctx'.events = ctx.events
  consensusSet : ctx'.consensusSet = ctx.consensusSet
  shares : SharesMoved ctx.staking ctx'.staking
  rewards : RewardsMoved ctx.funds ctx'.funds

theorem Moved.refl (ctx : Context Denom) : Moved ctx ctx :=
  ⟨rfl, rfl, rfl, SharesMoved.refl _, RewardsMoved.refl _⟩

theorem Moved.trans {ctx ctx' ctx'' : Context Denom} (first : Moved ctx ctx')
    (second : Moved ctx' ctx'') : Moved ctx ctx'' :=
  ⟨second.header.trans first.header, second.events.trans first.events,
    second.consensusSet.trans first.consensusSet, first.shares.trans second.shares,
    first.rewards.trans second.rewards⟩

variable [Fintype Denom] {chain : Chain Denom} {ctx' : Context Denom}

theorem removeValidator_ok {ctx : Context Denom} {addr : Address}
    (done : removeValidator chain ctx addr = .ok ctx')
    (found : ctx.staking.getValidator addr = some v) :
    v.status = .unbonded ∧ ctx'.staking = ctx.staking.dropValidator v addr ∧
      ctx'.header = ctx.header ∧ ctx'.events = ctx.events ∧ ctx'.consensusSet = ctx.consensusSet ∧
      ctx'.slashing = ctx.slashing.afterValidatorRemoved v.consAddress ∧
      Distribution.afterValidatorRemoved chain ctx.header ctx.funds v.operatorAddress =
        .ok ctx'.funds := by
  unfold removeValidator at done
  rw [found] at done
  simp only at done
  split at done
  · cases done
  rename_i unbonded
  split at done
  · cases done
  obtain ⟨_, paid, done⟩ := bind_eq_ok.mp done
  cases done
  refine ⟨?_, rfl, rfl, rfl, rfl, rfl, paid⟩
  simpa [Validator.isUnbonded] using unbonded

theorem withdrawShares_ok {ctx : Context Denom} {last : Dec} (sound : Sound ctx.staking)
    (stored : ctx.staking.validators.get v.operatorAddress = some v)
    (entry : ctx.staking.shares.get (toLex (v.operatorAddress, del)) = some last)
    (done : withdrawShares chain del last ctx v = .ok ctx') :
    Sound ctx'.staking ∧ Moved ctx ctx' ∧ (∀ addr, addr ≠ v.operatorAddress →
        ctx'.staking.validators.get addr = ctx.staking.validators.get addr) ∧
      ∀ key, ctx'.staking.shares.get key =
        if key = toLex (v.operatorAddress, del) then none else ctx.staking.shares.get key := by
  have kept := sound.deleteShares_moveShares del (y := v.delegatorShares - last) stored
    (by rw [entry, Option.getD_some])
  unfold withdrawShares at done
  simp only at done
  split at done
  · rename_i removable
    simp only [Bool.and_eq_true, decide_eq_true_eq] at removable
    obtain ⟨⟨-, dismissed⟩, nothing⟩ := removable
    obtain ⟨unbonded, staking, header, events, set, -, paid⟩ := removeValidator_ok done stored
    -- with its last shares gone the validator has no entries
    have bare : ∀ other, (ctx.staking.deleteShares v.operatorAddress del).shares.get
        (toLex (v.operatorAddress, other)) = none := by
      have tally := kept.tally v.operatorAddress _ (by
        rw [moveShares_validators, get_set_self])
      have own : v.ownShare = 0 := if_pos dismissed
      change v.delegatorShares - last = v.ownShare + _ at tally
      rw [own, zero_add] at tally
      intro other
      have none_left := kept.no_shares (tally.symm.trans nothing) other
      rw [moveShares_shares] at none_left
      exact none_left
    have shares : ∀ key, ctx'.staking.shares.get key =
        if key = toLex (v.operatorAddress, del) then none else ctx.staking.shares.get key := by
      intro key
      rw [staking]
      exact get_delete _ _ _
    refine ⟨?_, ⟨header, events, set, ⟨?_, ?_⟩, Distribution.afterValidatorRemoved_moved paid⟩, ?_, shares⟩
    · apply sound.drop stored
      · rw [staking]
        rfl
      · rw [staking]
        rfl
      · intro key
        rw [staking]
        change ((ctx.staking.validatorsByPower.delete v.powerKey).delete v.powerKey).get key = _
        rw [get_delete, get_delete]
        split <;> rfl
      · intro key
        rw [shares]
        by_cases here : (ofLex key).1 = v.operatorAddress
        · have absent := bare (ofLex key).2
          rw [← here] at absent
          change (ctx.staking.shares.delete (toLex ((ofLex key).1, del))).get key = none at absent
          rw [get_delete, here] at absent
          rw [if_pos here]
          exact absent
        · rw [if_neg here, if_neg]
          rintro rfl
          exact here rfl
    · rw [staking]
      rfl
    · intro addr
      rw [staking]
      change Reshared _ ((ctx.staking.validators.delete v.operatorAddress).get addr)
      rw [get_delete]
      split
      · rename_i same
        rw [same, stored]
        exact .gone v unbonded dismissed
      · exact Reshared.refl _
    · intro addr elsewhere
      rw [staking]
      exact get_delete_ne _ elsewhere
  · cases done
    refine ⟨kept, ⟨rfl, rfl, rfl, SharesMoved.moveShares stored rfl rfl, RewardsMoved.refl _⟩, ?_, ?_⟩
    · intro addr elsewhere
      rw [moveShares_validators]
      exact get_set_ne _ _ elsewhere
    · intro key
      rw [moveShares_shares]
      exact get_delete _ _ _

theorem withdrawShares_loop {last : Dec}
    (vals : List Validator) (distinct : (vals.map (·.operatorAddress)).Nodup)
    (ctx : Context Denom) (sound : Sound ctx.staking)
    (stored : ∀ v ∈ vals, ctx.staking.validators.get v.operatorAddress = some v)
    (entries : ∀ v ∈ vals, ctx.staking.shares.get (toLex (v.operatorAddress, del)) = some last)
    (done : vals.foldlM (withdrawShares chain del last) ctx = .ok ctx') :
    Sound ctx'.staking ∧ Moved ctx ctx' ∧
      entriesSet del (vals.map (·.operatorAddress)) none ctx.staking ctx'.staking := by
  induction vals generalizing ctx with
  | nil =>
    obtain rfl := Except.ok.inj done
    exact ⟨sound, Moved.refl ctx, fun key => by simp⟩
  | cons v rest ih =>
    obtain ⟨ctx₁, first, later⟩ := foldlM_cons_ok.mp done
    obtain ⟨kept, once, others, cleared⟩ := withdrawShares_ok sound
      (stored v mem_cons_self) (entries v mem_cons_self) first
    obtain ⟨apart, distinct⟩ := nodup_cons.mp distinct
    have differ := fun w inside same => apart (mem_map.mpr ⟨w, inside, same⟩)
    obtain ⟨after, moved, set⟩ := ih distinct ctx₁ kept
      (fun w inside => by
        rw [others _ (differ w inside)]
        exact stored w (mem_cons_of_mem v inside))
      (fun w inside => by
        rw [cleared, if_neg]
        · exact entries w (mem_cons_of_mem v inside)
        · intro same
          exact differ w inside (congrArg (fun key => (ofLex key).1) same)) later
    exact ⟨after, once.trans moved, entriesSet_cons cleared set⟩

end Exchain.Staking
