import Exchain.Staking.Proxies
import Exchain.Staking.Messages

namespace Exchain.Staking

open Distribution (Chain Header Funds Account RewardsMoved)
open Fallible (bind_eq_ok)

/-- The books of the store between two messages. -/
structure Books (s : Store) : Prop where
  sound : Sound s
  chosen : Chosen s
  proxied : Proxied (fun _ => 0) s

/-- What the shares of a delegator are the weight of, and the shares. -/
def Delegator.stake (d : Delegator) : Dec × Dec × Dec × List Address :=
  (d.tokens, d.totalDelegatedTokens, d.shares, d.validatorAddresses)

def Store.delegated (s : Store) : Dec := s.delegators.sum fun _ d => d.tokens

/-- The store without what messages about delegators change. -/
def Store.rest (s : Store) : Store := { s.frame with delegators := ∅, proxyBindings := ∅ }

theorem SharesMoved.rest {s s' : Store} (moved : SharesMoved s s') : s'.rest = s.rest :=
  congrArg (fun s : Store => ({ s with delegators := ∅, proxyBindings := ∅ } : Store)) moved.frame

variable {Denom : Type}

/-- A delegator that chose validators has the stake it started with or the weight of its tokens in
this block, unless out of date. -/
def Weighed (chain : Chain Denom) (header : Header) (start s : Store) (stale : Option Address) : Prop :=
  ∀ addr d, s.delegators.get addr = some d → d.validatorAddresses ≠ [] → stale ≠ some addr →
    (∃ e, start.delegators.get addr = some e ∧ e.stake = d.stake) ∨
      calculateWeight chain header (d.tokens + d.totalDelegatedTokens) = .ok d.shares

structure Midway (chain : Chain Denom) (start : Context Denom) (short : Address → Dec)
    (stale : Option Address) (added : Dec) (ctx : Context Denom) : Prop where
  sound : Sound ctx.staking
  chosen : Chosen ctx.staking
  proxied : Proxied short ctx.staking
  weighed : Weighed chain start.header start.staking ctx.staking stale
  delegated : ctx.staking.delegated = start.staking.delegated + added
  rest : ctx.staking.rest = start.staking.rest
  validators : ∀ addr, Reshared (start.staking.validators.get addr) (ctx.staking.validators.get addr)
  header : ctx.header = start.header
  events : ctx.events = start.events
  consensusSet : ctx.consensusSet = start.consensusSet
  rewards : RewardsMoved start.funds ctx.funds

/-- The books are closed again when nothing is short and nothing out of date. -/
theorem Midway.books {chain : Chain Denom} {start ctx : Context Denom} {stale : Option Address}
    {added : Dec} (midway : Midway chain start (fun _ => 0) stale added ctx) : Books ctx.staking :=
  ⟨midway.sound, midway.chosen, midway.proxied⟩

theorem Books.midway {ctx : Context Denom} (chain : Chain Denom) (books : Books ctx.staking) :
    Midway chain ctx (fun _ => 0) none 0 ctx where
  sound := books.sound
  chosen := books.chosen
  proxied := books.proxied
  weighed _ d found _ _ := .inl ⟨d, found, rfl⟩
  delegated := (add_zero _).symm
  rest := rfl
  validators _ := Reshared.refl _
  header := rfl
  events := rfl
  consensusSet := rfl
  rewards := RewardsMoved.refl _

variable {chain : Chain Denom} {start ctx : Context Denom} {short : Address → Dec}
  {stale : Option Address} {added : Dec} (midway : Midway chain start short stale added ctx)

include midway

variable {d : Delegator}

theorem Midway.bound_chose_none {addr : Address} (found : ctx.staking.delegators.get addr = some d)
    (bound : d.proxyAddress ≠ none) : d.validatorAddresses = [] := by
  by_contra some_chosen
  have positive := midway.chosen.shares_pos midway.sound found some_chosen
  rw [midway.proxied.unshared addr d found bound] at positive
  exact lt_irrefl 0 positive

omit midway in
theorem delegated_setDelegator {s : Store} (d' : Delegator)
    (found : s.delegators.get d.delegatorAddress = some d)
    (address : d'.delegatorAddress = d.delegatorAddress) :
    (s.setDelegator d').delegated = s.delegated + (d'.tokens - d.tokens) := by
  rw [Store.delegated, Store.setDelegator, SortedMap.sum_set, address, found, Option.elim_some,
    ← Store.delegated]
  ring

omit midway in
theorem Weighed.write {header : Header} {s₀ s : Store} {stale' : Option Address} (weighed : Weighed chain header s₀ s stale)
    (d : Delegator) (marked : stale' = some d.delegatorAddress ∨ d.validatorAddresses = [])
    (still : ∀ addr, stale = some addr → stale' = some addr) :
    Weighed chain header s₀ (s.setDelegator d) stale' := by
  apply SortedMap.forall_set
  · intro some_chosen current
    exact absurd (marked.resolve_right some_chosen) current
  · intro addr _ e found some_chosen current
    exact weighed addr e found some_chosen fun out => current (still addr out)

theorem Midway.write (d' : Delegator) (stale' : Option Address) (short' : Address → Dec)
    (found : ctx.staking.delegators.get d.delegatorAddress = some d)
    (address : d'.delegatorAddress = d.delegatorAddress) (positive : 0 < d'.tokens)
    (same_proxy : d'.proxyAddress = d.proxyAddress)
    (still_proxy : d.isProxy = true → d'.isProxy = true ∨ ∀ del e,
      ctx.staking.delegators.get del = some e → e.proxyAddress ≠ some d.delegatorAddress)
    (alone : d'.isProxy = true → d.proxyAddress = none)
    (choice : d'.validatorAddresses = d.validatorAddresses) (shares : d'.shares = d.shares)
    (marked : stale' = some d.delegatorAddress ∨ d.validatorAddresses = [])
    (still : ∀ addr, stale = some addr → stale' = some addr)
    (moved : ∀ addr, short' addr = short addr +
      (if d.proxyAddress = some addr then d'.tokens - d.tokens else 0) -
      if addr = d.delegatorAddress then d'.totalDelegatedTokens - d.totalDelegatedTokens else 0) :
    Midway chain start short' stale' (added + (d'.tokens - d.tokens))
      { ctx with staking := ctx.staking.setDelegator d' } where
  sound := midway.sound.of_same rfl rfl rfl rfl
  chosen := midway.chosen.setDelegator d' found address choice shares
  proxied := midway.proxied.write d' short' found address positive same_proxy still_proxy alone
    (fun bound => shares.trans (midway.proxied.unshared _ d found bound)) moved
  weighed := midway.weighed.write d' (by rwa [address, choice]) still
  delegated := by rw [delegated_setDelegator d' found address, midway.delegated, add_assoc]
  rest := midway.rest
  validators := midway.validators
  header := midway.header
  events := midway.events
  consensusSet := midway.consensusSet
  rewards := midway.rewards

theorem Midway.rebind
    {b : Option Address} {t : Store} (short' : Address → Dec) (found : ctx.staking.delegators.get d.delegatorAddress = some d)
    (delegators : t.delegators = (ctx.staking.setDelegator { d with proxyAddress := b }).delegators)
    (bindings : ∀ proxy del, t.proxyBindings.get (toLex (proxy, del)) =
      if del = d.delegatorAddress then (if b = some proxy then some () else none)
      else ctx.staking.proxyBindings.get (toLex (proxy, del)))
    (same : ({ t with delegators := ∅, proxyBindings := ∅ } : Store) =
      { ctx.staking with delegators := ∅, proxyBindings := ∅ })
    (to_proxy : ∀ proxy, b = some proxy → d.isProxy = false ∧ d.shares = 0 ∧
      ∃ p, ctx.staking.delegators.get proxy = some p ∧ p.isProxy = true)
    (moved : ∀ addr, short' addr = short addr +
      (if b = some addr then d.tokens else 0) - if d.proxyAddress = some addr then d.tokens else 0) :
    Midway chain start short' stale added { ctx with staking := t } := by
  have validators : t.validators = ctx.staking.validators := (congrArg (·.validators) same :)
  have written := midway.chosen.setDelegator { d with proxyAddress := b } found rfl rfl rfl
  refine ⟨?_, ?_, midway.proxied.rebind short' found delegators bindings to_proxy moved, ?_, ?_, ?_, ?_,
    midway.header, midway.events, midway.consensusSet, midway.rewards⟩
  · exact midway.sound.of_same validators (congrArg (·.validatorsByConsAddr) same :)
      (congrArg (·.validatorsByPower) same :) (congrArg (·.shares) same :)
  · exact written.of_same delegators (congrArg (·.shares) same :)
  · rw [Weighed, delegators]
    exact SortedMap.forall_set (midway.weighed _ d found) fun addr _ => midway.weighed addr
  · rw [Store.delegated, delegators, ← Store.delegated,
      delegated_setDelegator { d with proxyAddress := b } found rfl, midway.delegated]
    ring
  · rw [← midway.rest]
    exact congrArg Store.frame same
  · rw [validators]
    exact midway.validators

variable [Fintype Denom]

/-- Updating the shares of a delegator for the tokens of its record brings it up to date. -/
theorem Midway.updateShares {ctx' : Context Denom} {addr : Address} {tokens : Dec}
    (found : ctx.staking.delegators.get addr = some d) (only : ∀ a, stale = some a → a = addr)
    (sum : tokens = d.tokens + d.totalDelegatedTokens) (nonneg : 0 ≤ d.totalDelegatedTokens)
    (done : updateShares chain ctx addr tokens = .ok ctx') :
    Midway chain start short none added ctx' ∧ ∀ other, other ≠ addr →
        ctx'.staking.delegators.get other = ctx.staking.delegators.get other := by
  have address := midway.chosen.delegator addr d found
  have positive : 0 < tokens := by
    rw [sum]
    exact add_pos_of_pos_of_nonneg (midway.proxied.tokens_pos addr d found) nonneg
  obtain ⟨x, left_alone, reweighed, sound, chosen, moved⟩ :=
    updateShares_ok midway.sound midway.chosen found positive done
  have stored : ctx.staking.delegators.get d.delegatorAddress = some d := address ▸ found
  have unshared : d.proxyAddress ≠ none → x = 0 := by
    intro bound
    rw [left_alone (midway.bound_chose_none found bound)]
    exact midway.proxied.unshared addr d found bound
  have delegators : ctx'.staking.delegators =
      (ctx.staking.setDelegator { d with shares := x }).delegators := moved.shares.delegators
  refine ⟨⟨sound, chosen, ?_, ?_, ?_, ?_, ?_, moved.header.trans midway.header,
    moved.events.trans midway.events, moved.consensusSet.trans midway.consensusSet,
    midway.rewards.trans moved.rewards⟩, ?_⟩
  · have written := midway.proxied.write { d with shares := x } short stored rfl
      (midway.proxied.tokens_pos addr d found) rfl .inl
      (fun isProxy => midway.proxied.single addr d found isProxy) unshared (fun other => by simp)
    exact written.of_same delegators moved.shares.proxyBindings
  · rw [Weighed, delegators]
    apply SortedMap.forall_set
    · refine fun some_chosen _ => .inr ?_
      change calculateWeight chain start.header (d.tokens + d.totalDelegatedTokens) = .ok x
      rw [← sum, ← midway.header]
      exact reweighed some_chosen
    · intro other elsewhere e at_other some_chosen _
      apply midway.weighed other e at_other some_chosen
      intro out
      exact elsewhere ((only other out).trans address.symm)
  · rw [Store.delegated, delegators, ← Store.delegated, delegated_setDelegator { d with shares := x } stored rfl,
      midway.delegated]
    ring
  · exact moved.shares.rest.trans midway.rest
  · intro other
    exact (midway.validators other).trans (moved.shares.validators other)
  · intro other elsewhere
    rw [delegators]
    exact SortedMap.get_set_ne _ _ (address ▸ elsewhere)

omit midway

theorem Midway.updateProxy {ctx' : Context Denom} {tokens : Dec}
    (midway : Midway chain start short none added ctx) (short' : Address → Dec)
    (moved : ∀ addr, short' addr = short addr - if d.proxyAddress = some addr then tokens else 0)
    (done : updateProxy chain ctx d tokens = .ok ctx') :
    Midway chain start short' none added ctx' ∧ ∀ addr, d.proxyAddress ≠ some addr →
        ctx'.staking.delegators.get addr = ctx.staking.delegators.get addr := by
  unfold Staking.updateProxy at done
  split at done
  · rename_i unbound
    cases done
    have same : short' = short := by
      funext addr
      rw [moved addr, unbound]
      simp
    rw [same]
    exact ⟨midway, fun _ _ => rfl⟩
  rename_i proxy bound
  obtain ⟨p, looked, done⟩ := bind_eq_ok.mp done
  obtain ⟨_, enough, done⟩ := bind_eq_ok.mp done
  have found := orErr_eq_ok.mp looked
  have nonneg := require_eq_ok.mp enough
  have address : p.delegatorAddress = proxy := midway.chosen.delegator proxy p found
  have stored : ctx.staking.delegators.get p.delegatorAddress = some p := address ▸ found
  have written := midway.write
    { p with totalDelegatedTokens := p.totalDelegatedTokens + tokens }
    (some p.delegatorAddress) short' stored rfl
    (midway.proxied.tokens_pos proxy p found) rfl .inl
    (fun isProxy => midway.proxied.single proxy p found isProxy) rfl rfl (.inl rfl)
    (fun addr out => by cases out) (fun addr => by
      rw [moved addr, bound, address]
      simp [eq_comm])
  obtain ⟨updated, others⟩ := written.updateShares
    (d := { p with totalDelegatedTokens := p.totalDelegatedTokens + tokens })
    (SortedMap.get_set_self _ _ _) (fun a out => (Option.some.inj out).symm) (add_comm _ _) nonneg
    done
  rw [sub_self, add_zero] at updated
  refine ⟨updated, fun addr elsewhere => ?_⟩
  have differ : addr ≠ p.delegatorAddress := by
    rintro rfl
    exact elsewhere (address ▸ bound)
  rw [others addr differ]
  exact SortedMap.get_set_ne _ _ differ

end Exchain.Staking
