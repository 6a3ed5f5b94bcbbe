import Exchain.Staking.StepBooks

namespace Exchain.Staking

open List

open Distribution (Chain Header Funds Account)

variable {Denom : Type}

theorem Genesis.books {ctx : Context Denom} (genesis : Genesis ctx) : Books ctx.staking := by
  refine ⟨?_, ?_, ?_⟩
  · constructor <;> simp [genesis.validators, genesis.validatorsByConsAddr, genesis.validatorsByPower,
      genesis.shares]
  · constructor <;> simp [genesis.delegators, genesis.shares]
  · constructor <;> simp [genesis.delegators, genesis.proxyBindings]

variable [Fintype Denom] [DecidableEq Denom] {chain : Chain Denom} {start ctx : Context Denom}
  {ops : List (Op Denom)}

theorem books_of_run (genesis : Genesis start) (done : run chain start ops = .ok ctx) :
    Books ctx.staking :=
  PartialRun.run_keeps (fun ctx => Books ctx.staking)
    (fun _ _ _ books once => (step_accounted books once).books) genesis.books done

/-- Shares in every reached context. A validator has one share for its own stake and those of the
entries on it. A delegator has an entry on exactly the validators it chose. The power index has the
validators that are not jailed, each at the key of its shares. -/
theorem share_accounting (genesis : Genesis start) (done : run chain start ops = .ok ctx) :
    (∀ addr v, ctx.staking.validators.get addr = some v → v.operatorAddress = addr ∧
      v.delegatorShares = (if v.minSelfDelegation = 0 then 0 else Dec.one) +
        ctx.staking.shares.sum fun key shares => if (ofLex key).1 = addr then shares else 0) ∧
    (∀ val del shares, ctx.staking.shares.get (toLex (val, del)) = some shares ↔
      (∃ v, ctx.staking.validators.get val = some v) ∧
        ∃ d, ctx.staking.delegators.get del = some d ∧ val ∈ d.validatorAddresses ∧
          shares = d.shares) ∧ ∀ key addr, ctx.staking.validatorsByPower.get key = some addr ↔
      ∃ v, ctx.staking.validators.get addr = some v ∧ v.jailed = false ∧
        key = powerKey v.delegatorShares addr := by
  have books := books_of_run genesis done
  refine ⟨fun addr v found => ⟨books.sound.operator addr v found, books.sound.tally addr v found⟩,
    fun val del shares => ?_, fun key addr => ?_⟩
  · constructor
    · intro entry
      refine ⟨books.sound.shares_val _ _ entry, ?_⟩
      rw [books.chosen.entry] at entry
      obtain ⟨d, found, asked⟩ := Option.bind_eq_some_iff.mp entry
      unfold Delegator.entryOn at asked
      split at asked
      · rename_i listed
        exact ⟨d, found, listed, (Option.some.inj asked).symm⟩
      · cases asked
    · rintro ⟨-, d, found, listed, rfl⟩
      exact books.chosen.entry_of_listed found listed
  · rw [books.sound.power]
    apply exists_congr
    intro v
    apply and_congr_right
    intro found
    rw [Validator.powerKey, books.sound.operator addr v found, eq_comm (b := key)]

/-- A chain with one token after both upgrades. -/
def oneTokenChain : Chain Unit := ⟨(), 0, 1, 1, fun _ => none, Distribution.one_le_of_unweighted⟩

def smallParams : Params where
  unbondingTime := 100
  maxValidators := 2
  epoch := 2
  maxValsToAddShares := 2
  minDelegation := 1
  minSelfDelegation := 10
  unbondingTime_pos := by decide
  maxValidators_pos := by decide
  epoch_pos := by decide
  minDelegation_pos := Int.one_pos
  minSelfDelegation_pos := by decide

def smallGenesis : Context Unit := genesisContext ⟨2, 1000⟩ smallParams fun _ _ => 1000

theorem smallGenesis_genesis : Genesis smallGenesis := genesisContext_genesis _ _ _

/-- A validator, a proxy that chose it and a delegator that is bound to the proxy. -/
def proxyRun : List (Op Unit) :=
  [.beginBlock 5 [] [], .deliver (.createValidator 1 1 7 ((), 10)), .deliver (.deposit 2 ((), 50)),
    .deliver (.addShares 2 [1]), .deliver (.regProxy 2 true), .deliver (.deposit 3 ((), 20)),
    .deliver (.bindProxy 3 2), .endBlock]

theorem proxyRun_ok : ∃ ctx, run oneTokenChain smallGenesis proxyRun = .ok ctx :=
  Fallible.exists_eq_ok (by decide +kernel)

theorem share_accounting_proxyRun : ∃ ctx, run oneTokenChain smallGenesis proxyRun = .ok ctx ∧
    ∀ key addr, ctx.staking.validatorsByPower.get key = some addr ↔
      ∃ v, ctx.staking.validators.get addr = some v ∧ v.jailed = false ∧
        key = powerKey v.delegatorShares addr := by
  obtain ⟨ctx, done⟩ := proxyRun_ok
  exact ⟨ctx, done, (share_accounting smallGenesis_genesis done).2.2⟩

/-- The stake of a delegator has not changed since a moment of the run, and its shares are the
weight its tokens had then. -/
def SinceUpdate (chain : Chain Denom) (start : Context Denom) (ops : List (Op Denom)) (addr : Address)
    (d : Delegator) : Prop :=
  ∃ before after updated, ops = before ++ after ∧ run chain start before = .ok updated ∧
    calculateWeight chain updated.header (d.tokens + d.totalDelegatedTokens) = .ok d.shares ∧
    ∀ middle rest ctx, after = middle ++ rest → run chain updated middle = .ok ctx →
      ∃ e, ctx.staking.delegators.get addr = some e ∧ e.stake = d.stake

theorem sinceUpdate_of_run (genesis : Genesis start) (done : run chain start ops = .ok ctx)
    {addr : Address} {d : Delegator} (found : ctx.staking.delegators.get addr = some d)
    (chose : d.validatorAddresses ≠ []) : SinceUpdate chain start ops addr d := by
  induction ops using reverseRecOn generalizing ctx d with
  | nil =>
    obtain rfl := Except.ok.inj done
    rw [genesis.delegators] at found
    cases found
  | append_singleton ops op ih =>
    obtain ⟨_, first, last⟩ := PartialRun.run_append_ok done
    obtain ⟨ctx₂, once, same⟩ := PartialRun.run_cons_ok last
    obtain rfl := Except.ok.inj same
    have accounted := step_accounted (books_of_run genesis first) once
    rcases accounted.weighed addr d found chose (by simp) with ⟨e, before, stake⟩ | weighed
    · have choice : e.validatorAddresses = d.validatorAddresses := (congrArg (·.2.2.2) stake :)
      have tokens : e.tokens = d.tokens := (congrArg (·.1) stake :)
      have total : e.totalDelegatedTokens = d.totalDelegatedTokens := (congrArg (·.2.1) stake :)
      have shares : e.shares = d.shares := (congrArg (·.2.2.1) stake :)
      obtain ⟨earlier, later, updated, split, reached, weighed, constant⟩ :=
        ih first before (choice ▸ chose)
      refine ⟨earlier, later ++ [op], updated, by rw [split, append_assoc], reached, ?_, ?_⟩
      · rw [← tokens, ← total, ← shares]
        exact weighed
      intro middle rest ctx' halves reached'
      -- the state is one of the earlier ones or the last one
      rcases eq_nil_or_concat rest with rfl | ⟨rest', last', rfl⟩
      · rw [append_nil] at halves
        subst halves
        have whole : run chain start (earlier ++ (later ++ [op])) = .ok ctx' := by
          unfold run
          rw [PartialRun.run_append]
          exact (congrArg (· >>= _) reached).trans reached'
        rw [← append_assoc, ← split, done] at whole
        obtain rfl := Except.ok.inj whole
        exact ⟨d, found, rfl⟩
      · rw [concat_eq_append, ← append_assoc] at halves
        obtain ⟨halves, -⟩ := append_inj' halves rfl
        obtain ⟨f, there, same⟩ := constant middle rest' ctx' halves reached'
        exact ⟨f, there, same.trans stake⟩
    · refine ⟨ops ++ [op], [], ctx₂, (append_nil _).symm, done, weighed, ?_⟩
      intro middle rest ctx' halves reached
      obtain ⟨rfl, -⟩ := append_eq_nil_iff.mp halves.symm
      obtain rfl := Except.ok.inj reached
      exact ⟨d, found, rfl⟩

theorem height_of_run (genesis : Genesis start) (done : run chain start ops = .ok ctx) :
    start.header.height ≤ ctx.header.height := by
  have kept := PartialRun.run_keeps
    (fun ctx => Books ctx.staking ∧ start.header.height ≤ ctx.header.height)
    (fun ctx ctx' op kept once => ⟨(step_accounted kept.1 once).books, ?_⟩) ⟨genesis.books, le_rfl⟩ done
  · exact kept.2
  rcases step_header kept.1 once with same | ⟨elapsed, votes, evidence, -, next⟩
  · rw [same]
    exact kept.2
  · rw [next]
    exact kept.2.trans (Int.le.intro 1 rfl)

/-- Proxies in every reached context. -/
theorem proxy_accounting (genesis : Genesis start) (done : run chain start ops = .ok ctx) :
    (∀ proxy p, ctx.staking.delegators.get proxy = some p → p.isProxy = true →
      p.totalDelegatedTokens = ctx.staking.delegators.sum fun _ d =>
        if d.proxyAddress = some proxy then d.tokens else 0) ∧
    (∀ proxy del, ctx.staking.proxyBindings.get (toLex (proxy, del)) = some () ↔
      ∃ d, ctx.staking.delegators.get del = some d ∧ d.proxyAddress = some proxy) ∧
    (∀ proxy p, ctx.staking.delegators.get proxy = some p → p.isProxy = true →
      p.proxyAddress = none) ∧
    (∀ del d, ctx.staking.delegators.get del = some d → d.proxyAddress ≠ none → d.shares = 0) ∧
    ∀ proxy p, ctx.staking.delegators.get proxy = some p → p.isProxy = true →
      p.validatorAddresses ≠ [] → SinceUpdate chain start ops proxy p ∧
        (chain.higherThanVenus6 start.header.height = true →
          p.shares = (p.tokens + p.totalDelegatedTokens) * fixedWeight) := by
  have books := books_of_run genesis done
  refine ⟨fun proxy p found _ => ?_, books.proxied.binding, books.proxied.single,
    books.proxied.unshared, fun proxy p found _ chose => ?_⟩
  · have total := books.proxied.total proxy p found
    rw [add_zero] at total
    exact total
  have since := sinceUpdate_of_run genesis done found chose
  refine ⟨since, fun upgraded => ?_⟩
  obtain ⟨_, -, updated, -, reached, weighed, -⟩ := since
  have later := height_of_run genesis reached
  have still : chain.higherThanVenus6 updated.header.height = true := by
    simp only [Chain.higherThanVenus6, Bool.and_eq_true, decide_eq_true_eq] at upgraded ⊢
    exact ⟨upgraded.1, lt_of_lt_of_le upgraded.2 later⟩
  rw [calculateWeight, if_pos still] at weighed
  exact (Except.ok.inj weighed).symm

theorem proxy_accounting_proxyRun : ∃ ctx, run oneTokenChain smallGenesis proxyRun = .ok ctx ∧
    ∀ proxy p, ctx.staking.delegators.get proxy = some p → p.isProxy = true →
      p.totalDelegatedTokens = ctx.staking.delegators.sum fun _ d =>
        if d.proxyAddress = some proxy then d.tokens else 0 := by
  obtain ⟨ctx, done⟩ := proxyRun_ok
  exact ⟨ctx, done, (proxy_accounting smallGenesis_genesis done).1⟩

end Exchain.Staking
