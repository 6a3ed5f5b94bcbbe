import Exchain.Staking.Choice

namespace Exchain.Staking

open SortedMap Option

def Store.boundTokens (s : Store) (proxy : Address) : Dec :=
  s.delegators.sum fun _ d => if d.proxyAddress = some proxy then d.tokens else 0

/-- The bindings are as the records say, and each proxy lacks the given amount of the tokens bound
to it. -/
structure Proxied (short : Address → Dec) (s : Store) : Prop where
  tokens_pos : ∀ addr d, s.delegators.get addr = some d → 0 < d.tokens
  binding : ∀ proxy del, s.proxyBindings.get (toLex (proxy, del)) = some () ↔
    ∃ d, s.delegators.get del = some d ∧ d.proxyAddress = some proxy
  proxy : ∀ del d proxy, s.delegators.get del = some d → d.proxyAddress = some proxy →
    ∃ p, s.delegators.get proxy = some p ∧ p.isProxy = true
  single : ∀ addr p, s.delegators.get addr = some p → p.isProxy = true → p.proxyAddress = none
  total : ∀ addr p, s.delegators.get addr = some p →
    p.totalDelegatedTokens + short addr = s.boundTokens addr
  unshared : ∀ addr d, s.delegators.get addr = some d → d.proxyAddress ≠ none → d.shares = 0

variable {short : Address → Dec} {s : Store}

variable (proxied : Proxied short s)
include proxied

theorem Proxied.boundTokens_nonneg (proxy : Address) :
    0 ≤ s.boundTokens proxy := by
  apply sum_nonneg
  intro addr d found
  split
  · exact (proxied.tokens_pos addr d found).le
  · exact le_rfl

variable {addr : Address} {d : Delegator}

omit proxied in
theorem Proxied.boundTokens_eq_zero
    (unbound : ∀ del d, s.delegators.get del = some d → d.proxyAddress ≠ some addr) :
    s.boundTokens addr = 0 := by
  apply sum_eq_zero
  intro del d found
  exact if_neg (unbound del d found)

theorem Proxied.not_bound_to (addr : Address)
    (not_proxy : ∀ p, s.delegators.get addr = some p → p.isProxy = false) (del : Address)
    (d : Delegator) (found : s.delegators.get del = some d) : d.proxyAddress ≠ some addr := by
  intro bound
  obtain ⟨p, stored, isProxy⟩ := proxied.proxy del d addr found bound
  rw [not_proxy p stored] at isProxy
  cases isProxy

theorem Proxied.get_binding {del : Address}
    (found : s.delegators.get del = some d) (proxy : Address) :
    s.proxyBindings.get (toLex (proxy, del)) = if d.proxyAddress = some proxy then some () else none := by
  have listed := proxied.binding proxy del
  rw [found] at listed
  simp only [Option.some.injEq, exists_eq_left'] at listed
  split
  · rename_i bound
    exact listed.mpr bound
  rename_i unbound
  cases entry : s.proxyBindings.get (toLex (proxy, del)) with
  | none => rfl
  | some _ => exact absurd (listed.mp entry) unbound

theorem Proxied.not_self (found : s.delegators.get addr = some d) : d.proxyAddress ≠ some addr := by
  intro bound
  obtain ⟨_, stored, isProxy⟩ := proxied.proxy addr d addr found bound
  rw [found] at stored
  cases stored
  rw [proxied.single addr _ found isProxy] at bound
  cases bound

omit proxied

def Delegator.boundTo (d : Delegator) (proxy : Address) : Dec :=
  if d.proxyAddress = some proxy then d.tokens else 0

variable (proxied : Proxied short s)

include proxied

theorem Proxied.of_same {s' : Store}
    (delegators : s'.delegators = s.delegators) (bindings : s'.proxyBindings = s.proxyBindings) :
    Proxied short s' := by
  constructor
  · rw [delegators]
    exact proxied.tokens_pos
  · rw [bindings, delegators]
    exact proxied.binding
  · rw [delegators]
    exact proxied.proxy
  · rw [delegators]
    exact proxied.single
  · simp only [Store.boundTokens, delegators]
    exact proxied.total
  · rw [delegators]
    exact proxied.unshared

theorem Proxied.put {s' : Store} (addr : Address) (new : Option Delegator) (short' : Address → Dec)
    (get : ∀ other, s'.delegators.get other = if other = addr then new else s.delegators.get other)
    (bindings : ∀ proxy del, s'.proxyBindings.get (toLex (proxy, del)) = some () ↔
      if del = addr then ∃ d, new = some d ∧ d.proxyAddress = some proxy
      else s.proxyBindings.get (toLex (proxy, del)) = some ())
    (record : ∀ d, new = some d → 0 < d.tokens ∧ (d.isProxy = true → d.proxyAddress = none) ∧
      (d.proxyAddress ≠ none → d.shares = 0) ∧ ∀ proxy, d.proxyAddress = some proxy →
        proxy ≠ addr ∧ ∃ p, s.delegators.get proxy = some p ∧ p.isProxy = true)
    (still : (∃ d, new = some d ∧ d.isProxy = true) ∨
      ∀ del e, s.delegators.get del = some e → e.proxyAddress ≠ some addr)
    (moved : ∀ other p, s'.delegators.get other = some p →
      p.totalDelegatedTokens + short' other = s.boundTokens other -
        (s.delegators.get addr).elim 0 (·.boundTo other) + new.elim 0 (·.boundTo other)) :
    Proxied short' s' := by
  have old : ∀ other e, s'.delegators.get other = some e →
      other = addr ∧ new = some e ∨ other ≠ addr ∧ s.delegators.get other = some e := by
    intro other e stored
    rw [get] at stored
    split at stored
    · next here => exact .inl ⟨here, stored⟩
    · next elsewhere => exact .inr ⟨elsewhere, stored⟩
  constructor
  · intro other e stored
    rcases old other e stored with ⟨-, written⟩ | ⟨-, kept⟩
    · exact (record e written).1
    · exact proxied.tokens_pos other e kept
  · intro proxy del
    rw [bindings, get]
    split
    · exact Iff.rfl
    · exact proxied.binding proxy del
  · intro del e proxy stored bound
    rcases old del e stored with ⟨-, written⟩ | ⟨-, kept⟩
    · obtain ⟨differ, p, found, isProxy⟩ := (record e written).2.2.2 proxy bound
      exact ⟨p, (get proxy).trans ((if_neg differ).trans found), isProxy⟩
    obtain ⟨p, found, isProxy⟩ := proxied.proxy del e proxy kept bound
    rw [get]
    split
    · next here =>
      rcases still with after | unbound
      · exact after
      · exact absurd (here ▸ bound) (unbound del e kept)
    · exact ⟨p, found, isProxy⟩
  · intro other e stored isProxy
    rcases old other e stored with ⟨-, written⟩ | ⟨-, kept⟩
    · exact (record e written).2.1 isProxy
    · exact proxied.single other e kept isProxy
  · intro other e stored
    rw [moved other e stored]
    exact (sum_update get fun _ d => d.boundTo other).symm
  · intro other e stored bound
    rcases old other e stored with ⟨-, written⟩ | ⟨-, kept⟩
    · exact (record e written).2.2.1 bound
    · exact proxied.unshared other e kept bound

theorem Proxied.write (d' : Delegator)
    (short' : Address → Dec) (found : s.delegators.get d.delegatorAddress = some d)
    (address : d'.delegatorAddress = d.delegatorAddress) (positive : 0 < d'.tokens)
    (same_proxy : d'.proxyAddress = d.proxyAddress) (still : d.isProxy = true → d'.isProxy = true ∨
      ∀ del e, s.delegators.get del = some e → e.proxyAddress ≠ some d.delegatorAddress)
    (alone : d'.isProxy = true → d.proxyAddress = none)
    (unshared : d.proxyAddress ≠ none → d'.shares = 0) (moved : ∀ addr, short' addr = short addr +
      (if d.proxyAddress = some addr then d'.tokens - d.tokens else 0) -
      if addr = d.delegatorAddress then d'.totalDelegatedTokens - d.totalDelegatedTokens else 0) :
    Proxied short' (s.setDelegator d') := by
  have here : ∀ proxy, d'.boundTo proxy = d.boundTo proxy +
      if d.proxyAddress = some proxy then d'.tokens - d.tokens else 0 := by
    intro proxy
    unfold Delegator.boundTo
    rw [same_proxy]
    split <;> ring
  refine proxied.put d.delegatorAddress (some d') short' (fun other => ?_)
    (fun proxy del => ?_) (fun e same => ?_) ?_ fun other p stored => ?_
  · rw [Store.setDelegator, get_set, address]
  · change s.proxyBindings.get _ = _ ↔ _
    split
    · next own =>
      rw [proxied.binding, own, found]
      simp [same_proxy]
    · exact Iff.rfl
  · cases same
    refine ⟨positive, fun isProxy => same_proxy.trans (alone isProxy),
      fun bound => unshared (same_proxy ▸ bound), fun proxy bound => ?_⟩
    rw [same_proxy] at bound
    exact ⟨fun own => proxied.not_self found (own ▸ bound), proxied.proxy _ d proxy found bound⟩
  · by_cases isProxy : d.isProxy = true
    · exact (still isProxy).imp_left fun kept => ⟨d', rfl, kept⟩
    right
    apply proxied.not_bound_to
    intro p stored
    cases found.symm.trans stored
    simpa using isProxy
  · rw [found, elim_some, elim_some, here, moved]
    rw [Store.setDelegator, get_set, address] at stored
    split at stored
    · next own =>
      cases stored
      have before := proxied.total _ d found
      rw [own, if_pos rfl, ← before]
      ring
    · next elsewhere =>
      rw [if_neg elsewhere, ← proxied.total other p stored]
      ring

theorem Proxied.create {tokens : Dec}
    (absent : s.delegators.get addr = none) (positive : 0 < tokens) (exact : short addr = 0) :
    Proxied short (s.setDelegator { newDelegator addr with tokens }) := by
  have unbound := proxied.not_bound_to addr fun p stored => by
    rw [absent] at stored
    cases stored
  refine proxied.put addr (some _) short (fun other => get_set _ _ _ _)
    (fun proxy del => ?_) (fun e same => ?_) (.inr unbound) fun other p stored => ?_
  · change s.proxyBindings.get _ = _ ↔ _
    split
    · next own =>
      rw [proxied.binding, own, absent]
      simp [newDelegator]
    · exact Iff.rfl
  · cases same
    exact ⟨positive, fun _ => rfl, fun bound => absurd rfl bound, fun proxy bound => by cases bound⟩
  · rw [absent, elim_none, sub_zero]
    change _ = _ + (0 : Dec)
    rw [add_zero]
    replace stored := (get_set _ _ _ _).symm.trans stored
    split at stored
    · next own =>
      cases stored
      rw [own]
      change (0 : Dec) + short addr = s.boundTokens addr
      rw [exact, Proxied.boundTokens_eq_zero unbound, add_zero]
    · exact proxied.total other p stored

theorem Proxied.delete (short' : Address → Dec)
    (found : s.delegators.get d.delegatorAddress = some d) (not_proxy : d.isProxy = false)
    (moved : ∀ addr, short' addr = short addr - if d.proxyAddress = some addr then d.tokens else 0) :
    Proxied short' ((s.unbind d.proxyAddress d.delegatorAddress).deleteDelegator
      d.delegatorAddress) := by
  have unbound := proxied.not_bound_to d.delegatorAddress fun p stored => by
    cases found.symm.trans stored
    exact not_proxy
  have get : ∀ addr, ((s.unbind d.proxyAddress d.delegatorAddress).deleteDelegator
      d.delegatorAddress).delegators.get addr =
      if addr = d.delegatorAddress then none else s.delegators.get addr := by
    intro addr
    have same : (s.unbind d.proxyAddress d.delegatorAddress).delegators = s.delegators := by
      unfold Store.unbind
      split <;> rfl
    rw [Store.deleteDelegator, same, get_delete]
  refine proxied.put d.delegatorAddress none short' get (fun proxy del => ?_)
    (fun e gone => by cases gone) (.inr unbound) fun other p stored => ?_
  · have binding : ((s.unbind d.proxyAddress d.delegatorAddress).deleteDelegator
        d.delegatorAddress).proxyBindings.get (toLex (proxy, del)) =
        if d.proxyAddress = some proxy ∧ del = d.delegatorAddress then none
        else s.proxyBindings.get (toLex (proxy, del)) := by
      change (s.unbind d.proxyAddress d.delegatorAddress).proxyBindings.get _ = _
      unfold Store.unbind
      split
      · next old bound =>
        simp only [Store.setProxyBinding, if_true]
        rw [get_delete]
        by_cases here : proxy = old
        · simp [here, bound]
        · simp [here, Ne.symm here, bound]
      · next unbound_here => simp [unbound_here]
    rw [binding]
    by_cases here : del = d.delegatorAddress
    · rw [here, proxied.get_binding found]
      by_cases bound : d.proxyAddress = some proxy <;> simp [bound]
    · simp [here]
  · rw [get] at stored
    split at stored
    · cases stored
    rw [found, moved, ← proxied.total other p stored, elim_some, elim_none,
      Delegator.boundTo]
    ring

theorem Proxied.rebind {b : Option Address}
    {s' : Store} (short' : Address → Dec) (found : s.delegators.get d.delegatorAddress = some d)
    (delegators : s'.delegators = (s.setDelegator { d with proxyAddress := b }).delegators)
    (bindings : ∀ proxy del, s'.proxyBindings.get (toLex (proxy, del)) =
      if del = d.delegatorAddress then (if b = some proxy then some () else none)
      else s.proxyBindings.get (toLex (proxy, del)))
    (to_proxy : ∀ proxy, b = some proxy → d.isProxy = false ∧ d.shares = 0 ∧
      ∃ p, s.delegators.get proxy = some p ∧ p.isProxy = true)
    (moved : ∀ addr, short' addr = short addr +
      (if b = some addr then d.tokens else 0) - if d.proxyAddress = some addr then d.tokens else 0) :
    Proxied short' s' := by
  have get : ∀ addr, s'.delegators.get addr =
      if addr = d.delegatorAddress then some { d with proxyAddress := b }
      else s.delegators.get addr := by
    intro addr
    rw [delegators]
    exact get_set _ _ _ _
  refine proxied.put d.delegatorAddress (some { d with proxyAddress := b }) short' get
    (fun proxy del => ?_) (fun e same => ?_) ?_ fun other p stored => ?_
  · rw [bindings]
    split <;> simp
  · cases same
    refine ⟨proxied.tokens_pos _ d found, fun isProxy => ?_, fun bound => ?_, fun proxy bound => ?_⟩
    · cases bound : b with
      | none => rfl
      | some proxy => exact absurd isProxy (by simp [(to_proxy proxy bound).1])
    · obtain ⟨proxy, to_some⟩ := ne_none_iff_exists'.mp bound
      exact (to_proxy proxy to_some).2.1
    · obtain ⟨not_proxy, -, p, stored, isProxy⟩ := to_proxy proxy bound
      refine ⟨fun own => ?_, p, stored, isProxy⟩
      cases found.symm.trans (own ▸ stored)
      simp [not_proxy] at isProxy
  · by_cases isProxy : d.isProxy = true
    · exact .inl ⟨_, rfl, isProxy⟩
    right
    apply proxied.not_bound_to
    intro p stored
    cases found.symm.trans stored
    simpa using isProxy
  · have before : ∃ q, s.delegators.get other = some q ∧
        q.totalDelegatedTokens = p.totalDelegatedTokens := by
      rw [get] at stored
      split at stored
      · next here =>
        cases stored
        exact ⟨d, here ▸ found, rfl⟩
      · exact ⟨p, stored, rfl⟩
    obtain ⟨q, at_other, total⟩ := before
    rw [found, moved, ← proxied.total other q at_other, total, elim_some, elim_some,
      Delegator.boundTo, Delegator.boundTo]
    ring

end Exchain.Staking
