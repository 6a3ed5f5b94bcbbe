import Exchain.Staking.ShareMoves

namespace Exchain.Staking

open SortedMap List

open Distribution (Chain Header Funds Account RewardsMoved)
open Fallible (bind_eq_ok foldlM_cons_ok)

/-- The entry that the record of a delegator asks for. -/
def Delegator.entryOn (d : Delegator) (val : Address) : Option Dec :=
  if val ∈ d.validatorAddresses then some d.shares else none

structure Chosen (s : Store) : Prop where
  delegator : ∀ addr d, s.delegators.get addr = some d → d.delegatorAddress = addr
  nodup : ∀ addr d, s.delegators.get addr = some d → d.validatorAddresses.Nodup
  entry : ∀ val del, s.shares.get (toLex (val, del)) =
    (s.delegators.get del).bind fun d => d.entryOn val

variable {d : Delegator} {del : Address} {s t : Store}

theorem Chosen.entry_of_found (chosen : Chosen s)
    (found : s.delegators.get del = some d) (val : Address) :
    s.shares.get (toLex (val, del)) = d.entryOn val := by
  rw [chosen.entry, found, Option.bind_some]

theorem Chosen.entry_of_listed (chosen : Chosen s) {val : Address}
    (found : s.delegators.get del = some d) (listed : val ∈ d.validatorAddresses) :
    s.shares.get (toLex (val, del)) = some d.shares := by
  rw [chosen.entry_of_found found, Delegator.entryOn, if_pos listed]

theorem Chosen.exists_validator (sound : Sound s) (chosen : Chosen s) {val : Address}
    (found : s.delegators.get del = some d) (listed : val ∈ d.validatorAddresses) :
    ∃ v, s.validators.get val = some v :=
  sound.shares_val _ _ (chosen.entry_of_listed found listed)

theorem Chosen.shares_pos (sound : Sound s) (chosen : Chosen s)
    (found : s.delegators.get del = some d) (some_chosen : d.validatorAddresses ≠ []) :
    0 < d.shares := by
  obtain ⟨_, listed⟩ := exists_mem_of_ne_nil _ some_chosen
  exact sound.shares_pos _ _ (chosen.entry_of_listed found listed)

theorem Chosen.of_same {s' : Store} (chosen : Chosen s) (delegators : s'.delegators = s.delegators)
    (shares : s'.shares = s.shares) : Chosen s' := by
  constructor
  · rw [delegators]
    exact chosen.delegator
  · rw [delegators]
    exact chosen.nodup
  · rw [delegators, shares]
    exact chosen.entry

theorem Chosen.setDelegator (chosen : Chosen s) (d' : Delegator)
    (found : s.delegators.get d.delegatorAddress = some d)
    (address : d'.delegatorAddress = d.delegatorAddress)
    (choice : d'.validatorAddresses = d.validatorAddresses) (shares : d'.shares = d.shares) :
    Chosen (s.setDelegator d') where
  delegator := forall_set rfl fun addr _ => chosen.delegator addr
  nodup := forall_set (choice ▸ chosen.nodup _ d found) fun addr _ => chosen.nodup addr
  entry val del := by
    change s.shares.get (toLex (val, del)) = ((s.delegators.set d'.delegatorAddress d').get del).bind _
    rw [get_set]
    split
    · rename_i same
      rw [same, address, chosen.entry_of_found found, Option.bind_some, Delegator.entryOn,
        Delegator.entryOn, choice, shares]
    · exact chosen.entry val del

theorem entriesSet.others {other : Address} {addrs : List Address} {x : Option Dec}
    (set : entriesSet del addrs x s t) (elsewhere : other ≠ del) (val : Address) :
    t.shares.get (toLex (val, other)) = s.shares.get (toLex (val, other)) := by
  rw [set, if_neg fun both => elsewhere both.1]

theorem entriesSet.own {addrs : List Address} {x : Option Dec}
    (set : entriesSet del addrs x s t) (val : Address) : t.shares.get (toLex (val, del)) =
      if val ∈ addrs then x else s.shares.get (toLex (val, del)) := by
  rw [set]
  simp

theorem Chosen.rewrite (chosen : Chosen s)
    (delegators : t.delegators = s.delegators) (distinct : d.validatorAddresses.Nodup)
    (others : ∀ val del, del ≠ d.delegatorAddress →
      t.shares.get (toLex (val, del)) = s.shares.get (toLex (val, del)))
    (own : ∀ val, t.shares.get (toLex (val, d.delegatorAddress)) = d.entryOn val) :
    Chosen (t.setDelegator d) where
  delegator := by
    rw [Store.setDelegator, delegators]
    exact forall_set rfl fun addr _ => chosen.delegator addr
  nodup := by
    rw [Store.setDelegator, delegators]
    exact forall_set distinct fun addr _ => chosen.nodup addr
  entry val del := by
    change t.shares.get (toLex (val, del)) = ((t.delegators.set d.delegatorAddress d).get del).bind _
    rw [delegators, get_set]
    split
    · rename_i same
      rw [same]
      exact own val
    · rename_i elsewhere
      rw [others val del elsewhere]
      exact chosen.entry val del

theorem getLastValsAddedSharesExisted_eq (sound : Sound s) (chosen : Chosen s)
    (found : s.delegators.get del = some d) :
    ∃ vals, s.getLastValsAddedSharesExisted del = (vals, d.shares) ∧
      vals.map (·.operatorAddress) = d.validatorAddresses ∧
      (∀ v ∈ vals, s.validators.get v.operatorAddress = some v) ∧
      ∀ v ∈ vals, s.shares.get (toLex (v.operatorAddress, del)) = some d.shares := by
  have addresses : ∀ addrs : List Address, (∀ val ∈ addrs, ∃ v, s.validators.get val = some v) →
      (addrs.filterMap s.getValidator).map (·.operatorAddress) = addrs := by
    intro addrs stored
    induction addrs with
    | nil => rfl
    | cons val rest ih =>
      obtain ⟨v, here⟩ := stored val mem_cons_self
      have looked : s.getValidator val = some v := here
      rw [filterMap_cons_some looked, map_cons, sound.operator val v here,
        ih fun other inside => stored other (mem_cons_of_mem val inside)]
  refine ⟨d.validatorAddresses.filterMap s.getValidator, ?_, addresses _ fun val listed =>
    chosen.exists_validator sound found listed, ?_, ?_⟩
  · rw [Store.getLastValsAddedSharesExisted, Store.getDelegator, found]
  · intro v inside
    obtain ⟨val, -, here⟩ := mem_filterMap.mp inside
    rw [sound.operator val v here]
    exact here
  · intro v inside
    obtain ⟨val, listed, here⟩ := mem_filterMap.mp inside
    rw [sound.operator val v here]
    exact chosen.entry_of_listed found listed

variable {Denom : Type} [Fintype Denom] {d : Delegator} {del : Address}

section

variable {chain : Chain Denom} {ctx ctx' : Context Denom} (sound : Sound ctx.staking)
  (chosen : Chosen ctx.staking) (found : ctx.staking.delegators.get del = some d)

include sound chosen found

/-- A delegator that chose validators has the weight of the tokens as shares afterwards; others are
left alone. -/
theorem updateShares_ok {tokens : Dec} (positive : 0 < tokens)
    (done : updateShares chain ctx del tokens = .ok ctx') :
    ∃ x, (d.validatorAddresses = [] → x = d.shares) ∧
      (d.validatorAddresses ≠ [] → calculateWeight chain ctx.header tokens = .ok x) ∧
      Sound ctx'.staking ∧ Chosen ctx'.staking ∧
      Moved { ctx with staking := ctx.staking.setDelegator { d with shares := x } } ctx' := by
  have address := chosen.delegator del d found
  obtain ⟨vals, last, addrs, stored, entries⟩ := getLastValsAddedSharesExisted_eq sound chosen found
  have distinct : (vals.map (·.operatorAddress)).Nodup := addrs ▸ chosen.nodup del d found
  unfold updateShares at done
  rw [last] at done
  simp only at done
  split at done
  · rename_i none_chosen
    cases done
    have empty : d.validatorAddresses = [] := by
      rw [← addrs, isEmpty_iff.mp none_chosen, map_nil]
    have same : ctx.staking.setDelegator { d with shares := d.shares } = ctx.staking := by
      rw [Store.setDelegator, address, set_get_self _ found]
    refine ⟨d.shares, fun _ => rfl, fun some_chosen => absurd empty some_chosen, sound, chosen, ?_⟩
    rw [same]
    exact Moved.refl ctx
  rename_i some_chosen
  obtain ⟨_, before, done⟩ := bind_eq_ok.mp done
  obtain ⟨x, weighed, done⟩ := bind_eq_ok.mp done
  obtain ⟨_, again, done⟩ := bind_eq_ok.mp done
  obtain ⟨t, looped, done⟩ := bind_eq_ok.mp done
  obtain ⟨_, after, done⟩ := bind_eq_ok.mp done
  cases done
  rw [Store.getDelegator, found] at again
  cases again
  have shares_pos := calculateWeight_pos positive weighed
  obtain ⟨kept, moved, set⟩ :=
    updateValidatorShares_loop shares_pos sound distinct stored entries looped
  rw [addrs] at set
  refine ⟨x, fun empty => ?_, fun _ => weighed, kept.of_same rfl rfl rfl rfl, ?_, ?_⟩
  · rw [empty, map_eq_nil_iff] at addrs
    simp [addrs] at some_chosen
  · apply chosen.rewrite moved.delegators (d := { d with shares := x })
    · exact chosen.nodup del d found
    · intro val other elsewhere
      exact set.others (address ▸ elsewhere) val
    · intro val
      change t.shares.get (toLex (val, d.delegatorAddress)) =
        if val ∈ d.validatorAddresses then some x else none
      rw [address, set.own]
      split
      · rfl
      · rename_i unlisted
        rw [chosen.entry_of_found found, Delegator.entryOn, if_neg unlisted]
  · refine ⟨rfl, rfl, rfl, ⟨?_, moved.validators⟩,
      (Distribution.beforeDelegationSharesModified_moved before).trans
        (Distribution.afterDelegationModified_moved after)⟩
    have frame := congrArg (fun s : Store => s.setDelegator { d with shares := x }) moved.frame
    exact frame

theorem withdrawLastShares_ok {vals : List Validator} {last : Dec}
    (lastVals : ctx.staking.getLastValsAddedSharesExisted del = (vals, last))
    (done : withdrawLastShares chain ctx del vals last = .ok ctx') :
    Sound ctx'.staking ∧ Moved ctx ctx' ∧
      entriesSet del d.validatorAddresses none ctx.staking ctx'.staking := by
  obtain ⟨_, last', addrs, stored, entries⟩ := getLastValsAddedSharesExisted_eq sound chosen found
  rw [lastVals] at last'
  cases last'
  unfold withdrawLastShares at done
  split at done
  · rename_i none_chosen
    cases done
    refine ⟨sound, Moved.refl ctx, fun key => ?_⟩
    rw [← addrs, isEmpty_iff.mp none_chosen]
    simp
  obtain ⟨funds, before, done⟩ := bind_eq_ok.mp done
  have distinct : (vals.map (·.operatorAddress)).Nodup := addrs ▸ chosen.nodup del d found
  obtain ⟨kept, moved, set⟩ := withdrawShares_loop vals distinct { ctx with funds } sound
    stored entries done
  rw [addrs] at set
  refine ⟨kept, ?_, set⟩
  have paid : Moved ctx { ctx with funds } := ⟨rfl, rfl, rfl, SharesMoved.refl _,
    Distribution.beforeDelegationSharesModified_moved before⟩
  exact paid.trans moved

end

theorem Chosen.deleteDelegator (chosen : Chosen s)
    (found : s.delegators.get del = some d) (delegators : t.delegators = s.delegators)
    (cleared : entriesSet del d.validatorAddresses none s t) : Chosen (t.deleteDelegator del) where
  delegator addr e stored := by
    rw [Store.deleteDelegator, delegators, get_delete] at stored
    split at stored
    · cases stored
    exact chosen.delegator addr e stored
  nodup addr e stored := by
    rw [Store.deleteDelegator, delegators, get_delete] at stored
    split at stored
    · cases stored
    exact chosen.nodup addr e stored
  entry val other := by
    change t.shares.get (toLex (val, other)) = ((t.delegators.delete del).get other).bind _
    rw [cleared, delegators, get_delete, ofLex_toLex]
    by_cases same : other = del
    · rw [if_pos same, Option.bind_none, same]
      split
      · rfl
      · rename_i unlisted
        rw [chosen.entry_of_found found, Delegator.entryOn, if_neg fun listed => unlisted ⟨rfl, listed⟩]
    · rw [if_neg same, if_neg fun both => same both.1]
      exact chosen.entry val other

end Exchain.Staking
