import Exchain.Staking.Midway

namespace Exchain.Staking

open SortedMap Option
open List hiding mem_map sum_set
open Distribution (Chain Header Funds Account RewardsMoved)
open Fallible (bind_eq_ok of_bind)

variable {Denom : Type}
  {chain : Chain Denom} {start ctx ctx' : Context Denom} {short : Address → Dec}
  {stale : Option Address} {added : Dec}
  {addr : Address} {d : Delegator} {proxy : Address} {s : Store}

section

variable (books : Books s) (found : s.delegators.get addr = some d)

include books found

theorem Books.total_nonneg : 0 ≤ d.totalDelegatedTokens := by
  have total := books.proxied.total addr d found
  rw [add_zero] at total
  rw [total]
  exact books.proxied.boundTokens_nonneg addr

theorem Books.total_eq_zero (not_proxy : d.isProxy = false) : d.totalDelegatedTokens = 0 := by
  have total := books.proxied.total addr d found
  rw [add_zero] at total
  rw [total]
  apply Proxied.boundTokens_eq_zero
  apply books.proxied.not_bound_to
  intro p stored
  rw [found] at stored
  cases stored
  exact not_proxy

theorem Books.finalTokens_eq : d.finalTokens = d.tokens + d.totalDelegatedTokens := by
  unfold Delegator.finalTokens
  split
  · rfl
  · rename_i not_proxy
    rw [books.total_eq_zero found (by simpa using not_proxy), add_zero]

end

theorem Midway.create {tokens : Dec} (midway : Midway chain start (fun _ => 0) none added ctx)
    (addr : Address) (absent : ctx.staking.delegators.get addr = none) (positive : 0 < tokens) :
    Midway chain start (fun _ => 0) none (added + tokens)
      { ctx with staking := ctx.staking.setDelegator { newDelegator addr with tokens } } where
  sound := midway.sound.of_same rfl rfl rfl rfl
  chosen := by
    apply midway.chosen.rewrite (d := { newDelegator addr with tokens }) rfl nodup_nil
      (fun _ _ _ => rfl)
    intro val
    change ctx.staking.shares.get (toLex (val, addr)) = none
    rw [midway.chosen.entry, absent, bind_none]
  proxied := midway.proxied.create absent positive rfl
  weighed := midway.weighed.write _ (.inr rfl) fun _ out => out
  delegated := by
    rw [Store.delegated, Store.setDelegator, sum_set, ← Store.delegated, midway.delegated]
    change _ - (ctx.staking.delegators.get addr).elim 0 _ + tokens = _
    rw [absent, elim_none, sub_zero, add_assoc]
  rest := midway.rest
  validators := midway.validators
  header := midway.header
  events := midway.events
  consensusSet := midway.consensusSet
  rewards := midway.rewards

theorem unbind_same (s : Store) (b : Option Address) (del : Address) :
    ({ s.unbind b del with proxyBindings := ∅ } : Store) = { s with proxyBindings := ∅ } := by
  unfold Store.unbind
  split <;> rfl

theorem Midway.leave {del : Address} (midway : Midway chain start
      (fun addr => if d.proxyAddress = some addr then d.tokens else 0) none added ctx)
    (found : ctx.staking.delegators.get del = some d) (not_proxy : d.isProxy = false)
    (moved : Moved ctx ctx') (sound : Sound ctx'.staking)
    (cleared : entriesSet del d.validatorAddresses none ctx.staking ctx'.staking) :
    Midway chain start (fun _ => 0) none (added - d.tokens)
      { ctx' with staking := (ctx'.staking.unbind d.proxyAddress del).deleteDelegator del } := by
  have address := midway.chosen.delegator del d found
  have same := unbind_same ctx'.staking d.proxyAddress del
  have validators := (congrArg (·.validators) same :)
  have shares := (congrArg (·.shares) same :)
  have delegators : (ctx'.staking.unbind d.proxyAddress del).delegators = ctx.staking.delegators :=
    (congrArg (·.delegators) same :).trans moved.shares.delegators
  refine ⟨?_, ?_, ?_, ?_, ?_, ?_, ?_, moved.header.trans midway.header,
    moved.events.trans midway.events, moved.consensusSet.trans midway.consensusSet,
    midway.rewards.trans moved.rewards⟩
  · exact sound.of_same validators (congrArg (·.validatorsByConsAddr) same :)
      (congrArg (·.validatorsByPower) same :) shares
  · apply midway.chosen.deleteDelegator found delegators
    intro key
    rw [shares]
    exact cleared key
  · have there := midway.proxied.of_same moved.shares.delegators moved.shares.proxyBindings
    have at_del : ctx'.staking.delegators.get d.delegatorAddress = some d := by
      rw [moved.shares.delegators, address]
      exact found
    have deleted := there.delete (fun _ => 0) at_del not_proxy (fun addr => by simp)
    rw [address] at deleted
    exact deleted
  · intro addr e stored
    change ((ctx'.staking.unbind d.proxyAddress del).delegators.delete del).get addr = some e at stored
    rw [delegators, get_delete] at stored
    split at stored
    · cases stored
    exact midway.weighed addr e stored
  · change ((ctx'.staking.unbind d.proxyAddress del).delegators.delete del).sum _ = _
    rw [delegators, sum_delete, ← Store.delegated, midway.delegated, found,
      elim_some, add_sub_assoc]
  · rw [← midway.rest, ← moved.shares.rest]
    exact (congrArg (fun s : Store => s.rest) same :)
  · intro addr
    change Reshared _ ((ctx'.staking.unbind d.proxyAddress del).validators.get addr)
    rw [validators]
    exact (midway.validators addr).trans (moved.shares.validators addr)

theorem getValidatorsToAddShares_ok (sound : Sound s) {addrs : List Address}
    {vals : List Validator} (done : s.getValidatorsToAddShares addrs = .ok vals) :
    vals.map (·.operatorAddress) = addrs ∧
      ∀ v ∈ vals, s.validators.get v.operatorAddress = some v := by
  unfold Store.getValidatorsToAddShares at done
  induction addrs generalizing vals with
  | nil =>
    cases done
    exact ⟨rfl, fun v inside => by cases inside⟩
  | cons addr rest ih =>
    rw [mapM_cons] at done
    obtain ⟨v, looked, done⟩ := bind_eq_ok.mp done
    obtain ⟨later, listed, done⟩ := bind_eq_ok.mp done
    cases done
    have found : s.validators.get addr = some v := by
      split at looked
      · rename_i w at_addr
        cases looked
        exact at_addr
      · cases looked
    obtain ⟨addrs, present⟩ := ih listed
    have operator := sound.operator addr v found
    refine ⟨by rw [map_cons, operator, addrs], fun w inside => ?_⟩
    rcases mem_cons.mp inside with rfl | later
    · rw [operator]
      exact found
    · exact present w later

theorem Midway.clearBinding (midway : Midway chain start short stale added ctx) {del : Address}
    (found : ctx.staking.delegators.get del = some d) (bound : d.proxyAddress = some proxy) :
    Midway chain start (fun addr => short addr - if proxy = addr then d.tokens else 0) stale added
      { ctx with staking := ctx.staking.clearBinding (proxy, del) } := by
  have address := midway.chosen.delegator del d found
  have stored := address ▸ found
  have same : ctx.staking.clearBinding (proxy, del) =
      (ctx.staking.setDelegator { d with proxyAddress := none }).setProxyBinding proxy del true := by
    rw [Store.clearBinding, Store.getDelegator, found]
  rw [same]
  apply midway.rebind (b := none) _ stored
  · rfl
  · intro proxy' del'
    change (ctx.staking.proxyBindings.delete (toLex (proxy, del))).get _ = _
    rw [get_delete]
    by_cases here : del' = d.delegatorAddress
    · rw [here, address, midway.proxied.get_binding found, bound]
      simp [eq_comm]
    · rw [if_neg here, if_neg]
      intro same
      exact here ((congrArg (fun key => (ofLex key).2) same).trans address.symm)
  · rfl
  · intro _ none_bound
    cases none_bound
  · intro addr
    rw [bound]
    simp

/-- Clearing all bindings of a proxy leaves the other records and nobody bound to it. -/
theorem Midway.clearBindings (keys : List (Address × Address)) (distinct : keys.Nodup)
    (of_proxy : ∀ key ∈ keys, key.1 = proxy) (midway : Midway chain start short stale added ctx)
    (bound : ∀ del d, ctx.staking.delegators.get del = some d →
      (d.proxyAddress = some proxy ↔ (proxy, del) ∈ keys))
    (stored : ∀ key ∈ keys, ∃ d, ctx.staking.delegators.get key.2 = some d) :
    ∃ short', (∀ addr, addr ≠ proxy → short' addr = short addr) ∧
      Midway chain start short' stale added
        { ctx with staking := keys.foldl Store.clearBinding ctx.staking } ∧
      (∀ del d, (keys.foldl Store.clearBinding ctx.staking).delegators.get del = some d →
        d.proxyAddress ≠ some proxy) ∧
      ∀ del, (∀ key ∈ keys, key.2 ≠ del) →
        (keys.foldl Store.clearBinding ctx.staking).delegators.get del =
          ctx.staking.delegators.get del := by
  induction keys generalizing ctx short with
  | nil =>
    refine ⟨short, fun _ _ => rfl, midway, fun del d found to_proxy => ?_, fun _ _ => rfl⟩
    cases (bound del d found).mp to_proxy
  | cons key rest ih =>
    obtain ⟨proxy', del⟩ := key
    obtain rfl : proxy' = proxy := of_proxy _ mem_cons_self
    obtain ⟨apart, distinct⟩ := nodup_cons.mp distinct
    obtain ⟨d, found⟩ := stored _ mem_cons_self
    have to_proxy := (bound del d found).mpr mem_cons_self
    have address := midway.chosen.delegator del d found
    have get : ∀ other, (ctx.staking.clearBinding (proxy', del)).delegators.get other =
        if other = del then some { d with proxyAddress := none }
        else ctx.staking.delegators.get other := by
      intro other
      rw [Store.clearBinding, Store.getDelegator, found]
      change (ctx.staking.delegators.set d.delegatorAddress _).get other = _
      rw [address, get_set]
    obtain ⟨short', same, after, none_bound, others⟩ := ih distinct
      (fun key later => of_proxy key (mem_cons_of_mem _ later))
      (midway.clearBinding found to_proxy) (fun other e at_other => by
        rw [get] at at_other
        split at at_other
        · rename_i here
          cases at_other
          rw [here]
          exact iff_of_false (fun to_some => by cases to_some) apart
        · rename_i elsewhere
          rw [bound other e at_other, mem_cons]
          simp [elsewhere])
      (fun key later => by
        rw [get]
        split
        · exact ⟨_, rfl⟩
        · exact stored key (mem_cons_of_mem _ later))
    refine ⟨short', fun addr elsewhere => ?_, after, none_bound, fun other free => ?_⟩
    · rw [same addr elsewhere, if_neg (Ne.symm elsewhere), sub_zero]
    · rw [foldl_cons, others other fun key later => free key (mem_cons_of_mem _ later), get,
        if_neg (free _ mem_cons_self).symm]

theorem mem_bindings {key : Address × Address} :
    key ∈ (s.proxyBindings.keys.map ofLex).filter (fun key => key.1 = proxy) ↔
      key.1 = proxy ∧ s.proxyBindings.get (toLex (key.1, key.2)) = some () := by
  rw [mem_filter, List.mem_map, decide_eq_true_eq, and_comm]
  apply and_congr_right
  intro _
  constructor
  · rintro ⟨lex, listed, rfl⟩
    obtain ⟨_, entry⟩ := (s.proxyBindings.mem_keys lex).mp listed
    exact entry
  · intro entry
    exact ⟨toLex key, (s.proxyBindings.mem_keys _).mpr ⟨(), entry⟩, rfl⟩

variable [Fintype Denom]

theorem Books.updateShares {tokens : Dec} (midway : Midway chain start (fun _ => 0) stale added ctx)
    (found : ctx.staking.delegators.get addr = some d) (only : ∀ a, stale = some a → a = addr)
    (sum : tokens = d.tokens + d.totalDelegatedTokens)
    (done : updateShares chain ctx addr tokens = .ok ctx') :
    Midway chain start (fun _ => 0) none added ctx' :=
  (midway.updateShares found only sum (midway.books.total_nonneg found) done).1

variable {del proxy : Address}

/-- What is left of a delegator after its tokens were taken: a smaller record or none. -/
theorem settleWithdrawal_ok {quantity left : Dec} (midway : Midway chain start
      (fun addr => if d.proxyAddress = some addr then quantity else 0) none added ctx)
    (found : ctx.staking.delegators.get del = some d) (rest : left = d.tokens - quantity)
    (nonneg : 0 ≤ left) (not_all : d.isProxy = true → left ≠ 0)
    (done : settleWithdrawal chain ctx d del left = .ok ctx') :
    Midway chain start (fun _ => 0) none (added - quantity) ctx' := by
  have address := midway.chosen.delegator del d found
  have stored := address ▸ found
  unfold settleWithdrawal at done
  split at done
  · rename_i nothing
    have all : quantity = d.tokens := by
      rw [nothing] at rest
      exact (sub_eq_zero.mp rest.symm).symm
    have not_proxy : d.isProxy = false := by
      by_contra isProxy
      exact not_all (by simpa using isProxy) nothing
    obtain ⟨_, last, _, -, -⟩ :=
      getLastValsAddedSharesExisted_eq midway.sound midway.chosen found
    rw [last] at done
    obtain ⟨_, withdrawn, done⟩ := bind_eq_ok.mp done
    cases done
    obtain ⟨sound, moved, cleared⟩ :=
      withdrawLastShares_ok midway.sound midway.chosen found last withdrawn
    rw [all]
    rw [all] at midway
    exact midway.leave found not_proxy moved sound cleared
  · rename_i some_left
    have positive : 0 < left := lt_of_le_of_ne nonneg (Ne.symm some_left)
    have tokens : left - d.tokens = -quantity := by
      rw [rest]
      ring
    simp only at done
    split at done
    · rename_i bound
      have bound : d.proxyAddress ≠ none := isSome_iff_ne_none.mp bound
      cases done
      have written := midway.write { d with tokens := left } none (fun _ => 0)
        stored rfl positive rfl .inl
        (fun isProxy => midway.proxied.single del d found isProxy) rfl rfl
        (.inr (midway.bound_chose_none found bound)) (fun _ out => out) (fun addr => by
          rw [tokens]
          split <;> simp)
      rw [tokens] at written
      exact written
    · rename_i unbound
      have unbound : d.proxyAddress = none := by
        simpa [Delegator.hasProxy] using unbound
      have written := midway.write { d with tokens := left } (some d.delegatorAddress)
        (fun _ => 0) stored rfl positive rfl .inl
        (fun isProxy => midway.proxied.single del d found isProxy) rfl rfl (.inl rfl)
        (fun _ out => by cases out) (fun addr => by simp [unbound])
      rw [tokens] at written
      have final := written.books.finalTokens_eq (d := { d with tokens := left })
        (get_set_self _ _ _)
      exact Books.updateShares written (get_set_self _ _ _)
        (fun a out => (Option.some.inj out).symm) final done

variable (books : Books ctx.staking)

include books

/-- The delegator takes its shares back from the validators it chose and adds the weight of its
tokens to the new ones. -/
theorem handleMsgAddShares_ok {valAddrs : List Address}
    (distinct : valAddrs.Nodup) (done : handleMsgAddShares chain ctx del valAddrs = .ok ctx') :
    Midway chain ctx (fun _ => 0) none 0 ctx' := by
  obtain ⟨_, done⟩ := of_bind done
  obtain ⟨_, done⟩ := of_bind done
  obtain ⟨d, looked, done⟩ := bind_eq_ok.mp done
  obtain ⟨_, done⟩ := of_bind done
  obtain ⟨_, unbound, done⟩ := bind_eq_ok.mp done
  have found : ctx.staking.delegators.get del = some d := orErr_eq_ok.mp looked
  have address := books.chosen.delegator del d found
  have stored := address ▸ found
  have unbound := require_eq_ok.mp unbound
  obtain ⟨_, last, -, -, -⟩ := getLastValsAddedSharesExisted_eq books.sound books.chosen found
  rw [last] at done
  obtain ⟨ctx₁, withdrawn, done⟩ := bind_eq_ok.mp done
  obtain ⟨vals, listed, done⟩ := bind_eq_ok.mp done
  obtain ⟨_, done⟩ := of_bind done
  obtain ⟨_, before, done⟩ := bind_eq_ok.mp done
  obtain ⟨⟨_, x⟩, sharing, done⟩ := bind_eq_ok.mp done
  obtain ⟨_, after, done⟩ := bind_eq_ok.mp done
  cases done
  obtain ⟨y, weighed, same⟩ := bind_eq_ok.mp sharing
  obtain ⟨rfl, rfl⟩ := Prod.mk.inj (Except.ok.inj same)
  obtain ⟨sound₁, moved₁, cleared⟩ :=
    withdrawLastShares_ok books.sound books.chosen found last withdrawn
  obtain ⟨addrs, present⟩ := getValidatorsToAddShares_ok sound₁ listed
  have positive : 0 < d.tokens + d.totalDelegatedTokens :=
    add_pos_of_pos_of_nonneg (books.proxied.tokens_pos del d found) (books.total_nonneg found)
  have bare : ∀ val, ctx₁.staking.shares.get (toLex (val, del)) = none := by
    intro val
    rw [cleared.own]
    split
    · rfl
    · rename_i unlisted
      rw [books.chosen.entry_of_found found, Delegator.entryOn, if_neg unlisted]
  obtain ⟨sound₂, moved₂, set⟩ := addShares_loop (x := y)
    (calculateWeight_pos positive weighed) sound₁ (addrs ▸ distinct) present del
    fun v _ => bare v.operatorAddress
  rw [addrs] at set after ⊢
  have delegators := moved₂.delegators.trans moved₁.shares.delegators
  refine ⟨sound₂.of_same rfl rfl rfl rfl, ?_, ?_, ?_, ?_, ?_, ?_, moved₁.header, moved₁.events,
    moved₁.consensusSet, ?_⟩
  · apply books.chosen.rewrite delegators distinct
    · intro val other elsewhere
      have elsewhere : other ≠ del := address ▸ elsewhere
      rw [set.others elsewhere, cleared.others elsewhere]
    · intro val
      rw [address, set.own, bare]
      rfl
  · have written := books.proxied.write
      { d with validatorAddresses := valAddrs, shares := y } (fun _ => 0) stored rfl
      (books.proxied.tokens_pos del d found) rfl .inl
      (fun isProxy => books.proxied.single del d found isProxy)
      (fun bound => absurd unbound bound) (fun addr => by simp)
    apply written.of_same
    · exact congrArg (fun m : SortedMap Address Delegator => m.set d.delegatorAddress
        { d with validatorAddresses := valAddrs, shares := y }) delegators
    · exact moved₂.proxyBindings.trans moved₁.shares.proxyBindings
  · apply forall_set
    · rw [moved₁.header] at weighed
      exact fun _ _ => .inr weighed
    · intro addr _ e at_addr some_chosen _
      rw [delegators] at at_addr
      exact .inl ⟨e, at_addr, rfl⟩
  · change ((vals.foldl (addShares del y) ctx₁.staking).delegators.set _ _).sum _ = _
    rw [delegators]
    have sum := delegated_setDelegator { d with validatorAddresses := valAddrs, shares := y } stored rfl
    rw [sub_self] at sum
    exact sum
  · exact moved₂.rest.trans moved₁.shares.rest
  · intro addr
    exact (moved₁.shares.validators addr).trans (moved₂.validators addr)
  · exact (moved₁.rewards.trans (Distribution.beforeDelegationCreated_moved before)).trans
      (Distribution.afterDelegationModified_moved after)

omit books in
theorem unbindProxy_ok (midway : Midway chain start (fun _ => 0) none added ctx)
    (done : unbindProxy chain ctx del = .ok ctx') :
    Midway chain start (fun _ => 0) none added ctx' ∧
    ∃ d proxy, ctx.staking.delegators.get del = some d ∧ d.proxyAddress = some proxy ∧
      ctx'.staking.delegators.get del = some { d with proxyAddress := none } ∧
      ∀ other, other ≠ del → other ≠ proxy →
        ctx'.staking.delegators.get other = ctx.staking.delegators.get other := by
  obtain ⟨d, looked, done⟩ := bind_eq_ok.mp done
  obtain ⟨proxy, bound, done⟩ := bind_eq_ok.mp done
  obtain ⟨p, at_proxy, done⟩ := bind_eq_ok.mp done
  obtain ⟨ctx₁, updated, done⟩ := bind_eq_ok.mp done
  cases done
  have found : ctx.staking.delegators.get del = some d := orErr_eq_ok.mp looked
  have bound : d.proxyAddress = some proxy := orErr_eq_ok.mp bound
  have at_proxy : ctx.staking.delegators.get proxy = some p := orErr_eq_ok.mp at_proxy
  have address := midway.chosen.delegator del d found
  have proxy_address := midway.chosen.delegator proxy p at_proxy
  obtain ⟨taken, others⟩ := midway.updateProxy
    (fun addr => if d.proxyAddress = some addr then d.tokens else 0) (fun addr => by
      split <;> simp) (hideError_eq_ok.mp updated)
  have still : ctx₁.staking.delegators.get d.delegatorAddress = some d := by
    rw [address, others del (midway.proxied.not_self found)]
    exact found
  have after := taken.rebind (b := none)
    (t := (ctx₁.staking.setDelegator { d with proxyAddress := none }).setProxyBinding
      p.delegatorAddress d.delegatorAddress true) (fun _ => 0) still rfl (fun proxy' del' => by
        change (ctx₁.staking.proxyBindings.delete
          (toLex (p.delegatorAddress, d.delegatorAddress))).get _ = _
        rw [get_delete]
        by_cases here : del' = d.delegatorAddress
        · rw [here, taken.proxied.get_binding still, bound, proxy_address]
          simp [eq_comm]
        · rw [if_neg here, if_neg]
          intro same
          exact here (congrArg (fun key => (ofLex key).2) same)) rfl
    (fun proxy' none_bound => by cases none_bound) (fun addr => by simp)
  refine ⟨after, d, proxy, found, bound, ?_, ?_⟩
  · change (ctx₁.staking.delegators.set d.delegatorAddress _).get del = _
    rw [address, get_set_self]
  intro other elsewhere not_proxy
  change (ctx₁.staking.delegators.set d.delegatorAddress _).get other = _
  rw [get_set_ne _ _ (address ▸ elsewhere), others]
  rw [bound]
  exact fun same => not_proxy (Option.some.inj same).symm

theorem handleMsgBindProxy_ok (differ : del ≠ proxy)
    (done : handleMsgBindProxy chain ctx del proxy = .ok ctx') :
    Midway chain ctx (fun _ => 0) none 0 ctx' := by
  obtain ⟨d, looked, done⟩ := bind_eq_ok.mp done
  obtain ⟨_, done⟩ := of_bind done
  obtain ⟨_, unshared, done⟩ := bind_eq_ok.mp done
  obtain ⟨p, at_proxy, done⟩ := bind_eq_ok.mp done
  obtain ⟨_, done⟩ := of_bind done
  obtain ⟨_, isProxy, done⟩ := bind_eq_ok.mp done
  obtain ⟨_, not_proxy, done⟩ := bind_eq_ok.mp done
  have found : ctx.staking.delegators.get del = some d := orErr_eq_ok.mp looked
  have at_proxy : ctx.staking.delegators.get proxy = some p := orErr_eq_ok.mp at_proxy
  have isProxy := require_eq_ok.mp isProxy
  have address := books.chosen.delegator del d found
  have proxy_address := books.chosen.delegator proxy p at_proxy
  have opened := Books.midway chain books
  split at done
  · exact Books.updateShares opened (proxy_address.symm ▸ at_proxy) (fun a out => by cases out)
      (add_comm _ _) (hideError_eq_ok.mp done)
  rename_i other_proxy
  obtain ⟨ctx₁, unbound, done⟩ := bind_eq_ok.mp done
  have parted : Midway chain ctx (fun _ => 0) none 0 ctx₁ ∧
      ctx₁.staking.delegators.get del = some { d with proxyAddress := none } ∧
      ctx₁.staking.delegators.get proxy = some p := by
    unfold unbindIfBound at unbound
    split at unbound
    · rw [address] at unbound
      obtain ⟨after, _, _, again, bound, here, others⟩ := unbindProxy_ok opened unbound
      rw [found] at again
      cases again
      refine ⟨after, here, ?_⟩
      rw [others proxy differ.symm]
      · exact at_proxy
      · rintro rfl
        exact other_proxy (proxy_address ▸ bound)
    · rename_i free
      cases unbound
      have free : d.proxyAddress = none := by
        simpa [Delegator.hasProxy] using free
      refine ⟨opened, ?_, at_proxy⟩
      rw [found, ← free]
  obtain ⟨parted, at_del, at_proxy⟩ := parted
  have bound := parted.rebind (d := { d with proxyAddress := none }) (b := some proxy)
    (t := (ctx₁.staking.setDelegator { d with proxyAddress := some proxy }).setProxyBinding
      p.delegatorAddress d.delegatorAddress false)
    (fun addr => if some proxy = some addr then d.tokens else 0) (address.symm ▸ at_del) rfl (fun proxy' del' => by
        change (ctx₁.staking.proxyBindings.set
          (toLex (p.delegatorAddress, d.delegatorAddress)) ()).get _ = _
        rw [get_set, proxy_address]
        by_cases here : del' = d.delegatorAddress
        · rw [here, address, parted.proxied.get_binding at_del]
          simp [eq_comm]
        · rw [if_neg here, if_neg]
          intro same
          exact here (congrArg (fun key => (ofLex key).2) same)) rfl
    (fun proxy' to_proxy => by
      cases to_proxy
      exact ⟨require_eq_ok.mp not_proxy, require_eq_ok.mp unshared, p, at_proxy, isProxy⟩)
    (fun addr => by simp)
  have still : (ctx₁.staking.setDelegator { d with proxyAddress := some proxy }).delegators.get
      p.delegatorAddress = some p := by
    rw [proxy_address, Store.setDelegator, get_set_ne]
    · exact at_proxy
    · rw [address]
      exact differ.symm
  have written := bound.write
    { p with totalDelegatedTokens := p.totalDelegatedTokens + d.tokens } (some p.delegatorAddress)
    (fun _ => 0) still rfl
    (books.proxied.tokens_pos proxy p (by assumption)) rfl .inl
    (fun isProxy => parted.proxied.single proxy p at_proxy isProxy) rfl rfl (.inl rfl)
    (fun addr out => by cases out) (fun addr => by
      rw [proxy_address]
      simp [eq_comm])
  have updated := Books.updateShares written
    (d := { p with totalDelegatedTokens := p.totalDelegatedTokens + d.tokens })
    (get_set_self _ _ _) (fun a out => (Option.some.inj out).symm) (add_comm _ _)
    (hideError_eq_ok.mp done)
  rw [sub_self] at updated
  exact updated

theorem regProxy_ok
    (done : regProxy chain ctx proxy = .ok ctx') : Midway chain ctx (fun _ => 0) none 0 ctx' := by
  obtain ⟨p, looked, done⟩ := bind_eq_ok.mp done
  obtain ⟨_, not_proxy, done⟩ := bind_eq_ok.mp done
  obtain ⟨_, unbound, done⟩ := bind_eq_ok.mp done
  have found : ctx.staking.delegators.get proxy = some p := orErr_eq_ok.mp looked
  have not_proxy := require_eq_ok.mp not_proxy
  have address := books.chosen.delegator proxy p found
  have written := (Books.midway chain books).write (d := p) { p with isProxy := true }
    (some p.delegatorAddress) (fun _ => 0) (address.symm ▸ found) rfl
    (books.proxied.tokens_pos proxy p found) rfl (fun _ => .inl rfl)
    (fun _ => require_eq_ok.mp unbound) rfl rfl (.inl rfl) (fun addr out => by cases out)
    (fun addr => by simp)
  rw [sub_self] at written
  have alone : p.tokens = p.tokens + p.totalDelegatedTokens := by
    rw [books.total_eq_zero found not_proxy, add_zero]
  exact Books.updateShares written (get_set_self _ _ _)
    (fun a out => (Option.some.inj out).symm) alone (hideError_eq_ok.mp done)

theorem unregProxy_ok
    (done : unregProxy chain ctx proxy = .ok ctx') : Midway chain ctx (fun _ => 0) none 0 ctx' := by
  obtain ⟨p, looked, done⟩ := bind_eq_ok.mp done
  obtain ⟨_, isProxy, done⟩ := bind_eq_ok.mp done
  have found : ctx.staking.delegators.get proxy = some p := orErr_eq_ok.mp looked
  have isProxy := require_eq_ok.mp isProxy
  have address := books.chosen.delegator proxy p found
  have unbound := books.proxied.single proxy p found isProxy
  obtain ⟨short, same, cleared, none_bound, others⟩ := Midway.clearBindings
    ((ctx.staking.proxyBindings.keys.map ofLex).filter fun key => key.1 = p.delegatorAddress)
    ((ctx.staking.proxyBindings.nodup_keys.map ofLex.injective).filter _)
    (fun key listed => (mem_bindings.mp listed).1) (Books.midway chain books)
    (fun del d at_del => by
      rw [mem_bindings, books.proxied.binding, at_del]
      simp)
    (fun key listed => by
      obtain ⟨d, at_del, -⟩ := (books.proxied.binding _ _).mp (mem_bindings.mp listed).2
      exact ⟨d, at_del⟩)
  have still : (ctx.staking.clearProxy p.delegatorAddress).delegators.get p.delegatorAddress =
      some p := by
    rw [Store.clearProxy, others]
    · exact address.symm ▸ found
    intro key listed here
    obtain ⟨_, at_del, bound⟩ := (books.proxied.binding _ _).mp (mem_bindings.mp listed).2
    rw [here, address, found] at at_del
    cases at_del
    rw [unbound] at bound
    cases bound
  have held : p.totalDelegatedTokens + short p.delegatorAddress = 0 := by
    rw [cleared.proxied.total p.delegatorAddress p still]
    exact Proxied.boundTokens_eq_zero none_bound
  have written := cleared.write (d := p)
    { p with isProxy := false, totalDelegatedTokens := 0 } (some p.delegatorAddress) (fun _ => 0) still rfl
    (books.proxied.tokens_pos proxy p found) rfl (fun _ => .inr none_bound)
    (fun isProxy => by cases isProxy) rfl rfl (.inl rfl) (fun addr out => by cases out) (fun addr => by
      by_cases here : addr = p.delegatorAddress
      · rw [if_pos here, here, zero_sub, sub_neg_eq_add, add_comm]
        simp [held]
      · rw [if_neg here, same addr here]
        simp)
  rw [sub_self] at written
  exact Books.updateShares written (get_set_self _ _ _)
    (fun a out => (Option.some.inj out).symm) (add_zero _).symm (hideError_eq_ok.mp done)

variable [DecidableEq Denom]

theorem delegate_ok {quantity : Dec} (done : delegate chain ctx del quantity = .ok ctx') :
    ∃ funds, ctx.funds.sendCoins (.user del) .bondedPool (bondCoins chain quantity) = .ok funds ∧
      Midway chain { ctx with funds } (fun _ => 0) none quantity ctx' := by
  obtain ⟨_, least, done⟩ := bind_eq_ok.mp done
  obtain ⟨funds, sent, done⟩ := bind_eq_ok.mp done
  have positive : 0 < quantity :=
    lt_of_lt_of_le ctx.staking.params.minDelegation_pos (require_eq_ok.mp least)
  refine ⟨funds, sent, ?_⟩
  have opened : Midway chain { ctx with funds } (fun _ => 0) none 0 { ctx with funds } :=
    Books.midway chain books
  simp only at done
  cases found : ctx.staking.delegators.get del with
  | none =>
    rw [Store.getDelegator, found, getD_none] at done
    have created := opened.create del found positive
    rw [zero_add] at created
    rw [newDelegator, zero_add] at done
    exact Books.updateShares created (get_set_self _ _ _) (fun a out => by cases out)
      (add_zero _).symm done
  | some d =>
    rw [Store.getDelegator, found] at done
    have address := books.chosen.delegator del d found
    have stored := address ▸ found
    have tokens_pos := books.proxied.tokens_pos del d found
    split at done
    · rename_i bound
      have bound : d.proxyAddress ≠ none := isSome_iff_ne_none.mp bound
      have written := opened.write { d with tokens := d.tokens + quantity } none
        (fun addr => if d.proxyAddress = some addr then quantity else 0) stored rfl (add_pos tokens_pos positive) rfl .inl
        (fun isProxy => books.proxied.single del d found isProxy) rfl rfl
        (.inr (opened.bound_chose_none found bound)) (fun _ out => out) (fun addr => by simp)
      obtain ⟨updated, -⟩ := written.updateProxy (fun _ => 0) (fun addr => by simp) done
      rw [zero_add, add_sub_cancel_left] at updated
      exact updated
    rename_i unbound
    have unbound : d.proxyAddress = none := by
      simpa [Delegator.hasProxy] using unbound
    have written := opened.write { d with tokens := d.tokens + quantity }
      (some d.delegatorAddress) (fun _ => 0) stored rfl (add_pos tokens_pos positive) rfl .inl
      (fun isProxy => books.proxied.single del d found isProxy) rfl rfl (.inl rfl)
      (fun _ out => by cases out) (fun addr => by simp [unbound])
    have final := written.books.finalTokens_eq (d := { d with tokens := d.tokens + quantity })
      (get_set_self _ _ _)
    have updated := Books.updateShares written (get_set_self _ _ _)
      (fun a out => (Option.some.inj out).symm) final done
    rw [zero_add, add_sub_cancel_left] at updated
    exact updated

/-- A withdrawal moves its quantity from the tokens of the delegator to the undelegation of the
account. -/
theorem withdraw_ok {quantity : Dec} {completionTime : Time}
    (done : withdraw chain ctx del quantity = .ok (ctx', completionTime)) :
    ctx.staking.params.minDelegation ≤ quantity ∧
    completionTime = ctx.header.time + ctx.staking.params.unbondingTime ∧
    ∃ funds mid, ctx.funds.sendCoins .bondedPool .notBondedPool (bondCoins chain quantity) = .ok funds ∧
      Midway chain { ctx with funds } (fun _ => 0) none (-quantity) mid ∧
      ctx' = { mid with staking := mid.staking.addUndelegation del quantity completionTime } := by
  obtain ⟨d, looked, done⟩ := bind_eq_ok.mp done
  obtain ⟨_, least, done⟩ := bind_eq_ok.mp done
  obtain ⟨_, enough, done⟩ := bind_eq_ok.mp done
  obtain ⟨_, not_all, done⟩ := bind_eq_ok.mp done
  obtain ⟨_, paid, done⟩ := bind_eq_ok.mp done
  obtain ⟨ctx₂, proxied, done⟩ := bind_eq_ok.mp done
  obtain ⟨ctx₃, settled, done⟩ := bind_eq_ok.mp done
  cases Except.ok.inj done
  obtain ⟨funds, sent, paid⟩ := bind_eq_ok.mp paid
  cases paid
  have found : ctx.staking.delegators.get del = some d := orErr_eq_ok.mp looked
  have opened : Midway chain { ctx with funds } (fun _ => 0) none 0 { ctx with funds } :=
    Books.midway chain books
  obtain ⟨taken, others⟩ := opened.updateProxy
    (fun addr => if d.proxyAddress = some addr then quantity else 0) (fun addr => by
      split <;> simp) proxied
  have still : ctx₂.staking.delegators.get del = some d := by
    rw [others]
    · exact found
    · exact books.proxied.not_self found
  have after := settleWithdrawal_ok taken still rfl
    (sub_nonneg.mpr (require_eq_ok.mp enough)) (require_eq_ok.mp not_all) settled
  rw [zero_sub] at after
  have params : ctx₃.staking.params = ctx.staking.params := (congrArg (·.params) after.rest :)
  refine ⟨require_eq_ok.mp least, ?_, funds, ctx₃, panicOnError_eq_ok.mp sent, after, rfl⟩
  rw [after.header, params]

end Exchain.Staking
