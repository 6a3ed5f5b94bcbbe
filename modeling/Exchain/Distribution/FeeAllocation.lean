import Exchain.Distribution.Allocation
import Exchain.Lib.Fallible
import Mathlib.Tactic.LinearCombination

namespace Exchain.Distribution

open Dec SortedMap
open List hiding sum_eq_zero sum_nonneg sum_set
open Staking (Address ConsAddress Failure Err Validator panicOnError)
open Fallible (ok_bind error_bind)

variable {Denom : Type}

/-- What fees allocated to a validator are added to: its outstanding rewards or, before the
distribution proposal is active, its commission. -/
def creditOf (chain : Chain Denom) (header : Header) (d : Store Denom) (val : Address) : Coins Denom :=
  if checkDistributionProposalValid chain header d then (d.outstandingRewards.get val).getD 0
  else d.getValidatorAccumulatedCommission val

def totalCredit (chain : Chain Denom) (header : Header) (d : Store Denom) : Coins Denom :=
  if checkDistributionProposalValid chain header d then d.outstandingRewards.sum fun _ coins => coins
  else d.accumulatedCommission.sum fun _ coins => coins

/-- The validator has a rate between zero and one and, after the activation, its records. -/
structure Payable (chain : Chain Denom) (header : Header) (d : Store Denom) (val : Validator) :
    Prop where
  rate_nonneg : 0 ≤ val.commission.rate
  rate_le : val.commission.rate ≤ one
  records : checkDistributionProposalValid chain header d = true →
    (∃ current, d.currentRewards.get val.operatorAddress = some current) ∧
      ∃ outstanding, d.outstandingRewards.get val.operatorAddress = some outstanding

/-- Some validators were credited, none with a negative amount, and nothing else changed that the
allocation depends on. -/
structure Credited (chain : Chain Denom) (header : Header) (d d' : Store Denom)
    (amount : Coins Denom) : Prop where
  active : checkDistributionProposalValid chain header d' = checkDistributionProposalValid chain header d
  pool : d'.communityPool = d.communityPool
  total : totalCredit chain header d' = totalCredit chain header d + amount
  grows : ∀ val, creditOf chain header d val ≤ creditOf chain header d' val
  payable : ∀ val, Payable chain header d val → Payable chain header d' val

theorem Credited.refl (chain : Chain Denom) (header : Header) (d : Store Denom) :
    Credited chain header d d 0 where
  active := rfl
  pool := rfl
  total := (add_zero _).symm
  grows _ := le_rfl
  payable _ payable := payable

theorem Credited.trans {chain : Chain Denom} {header : Header} {d d' d'' : Store Denom}
    {amount amount' : Coins Denom} (first : Credited chain header d d' amount)
    (second : Credited chain header d' d'' amount') :
    Credited chain header d d'' (amount + amount') where
  active := second.active.trans first.active
  pool := second.pool.trans first.pool
  total := by rw [second.total, first.total, add_assoc]
  grows val := (first.grows val).trans (second.grows val)
  payable val payable := second.payable val (first.payable val payable)

theorem sum_set_add (table : SortedMap Address (Coins Denom)) (val : Address) (coins : Coins Denom) :
    (table.set val ((table.get val).getD 0 + coins)).sum (fun _ c => c) =
      table.sum (fun _ c => c) + coins := by
  rw [sum_set]
  cases table.get val with
  | none => simp
  | some held =>
    simp only [Option.elim_some, Option.getD_some]
    abel

theorem getD_set_add (table : SortedMap Address (Coins Denom)) (val other : Address)
    {coins : Coins Denom} (nonneg : 0 ≤ coins) :
    (table.get other).getD 0 ≤ ((table.set val ((table.get val).getD 0 + coins)).get other).getD 0 := by
  rw [get_set]
  split
  · rename_i same
    rw [same]
    exact le_add_of_nonneg_right nonneg
  · exact le_rfl

theorem exists_set {ν : Type} (table : SortedMap Address ν) (val other : Address) (v : ν)
    (found : ∃ w, table.get other = some w) : ∃ w, (table.set val v).get other = some w := by
  rw [get_set]
  split
  · exact ⟨v, rfl⟩
  · exact found

variable {tokens : Coins Denom}

theorem mulDec_le {rate : Dec} (nonneg : 0 ≤ tokens) (rate_nonneg : 0 ≤ rate)
    (rate_le : rate ≤ one) : tokens.mulDec rate ≤ tokens :=
  fun denom => mul_le (nonneg denom) rate_nonneg rate_le

variable {whole : Dec}

theorem sum_mulTruncate_le {ι : Type} (l : List ι) (fraction : ι → Dec)
    (nonneg : 0 ≤ whole) (fractions : ∀ i ∈ l, 0 ≤ fraction i)
    (total : (l.map fraction).sum ≤ precision) :
    (l.map fun i => mulTruncate whole (fraction i)).sum ≤ whole := by
  have scaled : (l.map fun i => mulTruncate whole (fraction i)).sum * precision ≤
      whole * (l.map fraction).sum := by
    clear total
    induction l with
    | nil => simp
    | cons i rest ih =>
      have first := mulTruncate_mul_le nonneg (fractions i mem_cons_self)
      have others := ih fun j inside => fractions j (mem_cons_of_mem i inside)
      simp only [map_cons, sum_cons, add_mul, mul_add]
      exact add_le_add first others
  have bounded := mul_le_mul_of_nonneg_left total nonneg
  exact le_of_mul_le_mul_right (scaled.trans bounded) precision_pos

theorem sum_quoTruncate_le {ι : Type} (l : List ι) (part : ι → Dec) (nonneg : ∀ i ∈ l, 0 ≤ part i)
    (total : (l.map part).sum = whole) (positive : 0 < whole) :
    (l.map fun i => FixedPoint.quoTruncate precision (part i) whole).sum ≤ precision := by
  have scaled : (l.map fun i => FixedPoint.quoTruncate precision (part i) whole).sum * whole ≤
      (l.map part).sum * precision := by
    clear total
    induction l with
    | nil => simp
    | cons i rest ih =>
      have head := FixedPoint.quoTruncate_mul_le precision_pos
        (nonneg i mem_cons_self) positive
      have tail := ih fun j member => nonneg j (mem_cons_of_mem i member)
      simp only [map_cons, sum_cons, add_mul]
      exact add_le_add head tail
  rw [total, mul_comm whole] at scaled
  exact le_of_mul_le_mul_right scaled positive

theorem sum_apply (l : List (Coins Denom)) (denom : Denom) :
    l.sum denom = (l.map fun coins => coins denom).sum := by
  induction l with
  | nil => rfl
  | cons _ _ ih => rw [sum_cons, map_cons, sum_cons, Pi.add_apply, ih]

theorem sum_mulDecTruncate_le {ι : Type} (l : List ι) (fraction : ι → Dec) {whole : Coins Denom}
    (nonneg : 0 ≤ whole) (fractions : ∀ i ∈ l, 0 ≤ fraction i)
    (total : (l.map fraction).sum ≤ precision) :
    (l.map fun i => whole.mulDecTruncate (fraction i)).sum ≤ whole := by
  intro denom
  rw [sum_apply, map_map]
  exact sum_mulTruncate_le l fraction (nonneg denom) fractions total

theorem mulDecTruncate_nonneg {whole : Coins Denom} {fraction : Dec} (nonneg : 0 ≤ whole)
    (positive : 0 ≤ fraction) : 0 ≤ whole.mulDecTruncate fraction :=
  fun denom => mulTruncate_nonneg (nonneg denom) positive

variable [Fintype Denom]
  {chain : Chain Denom} {d : Store Denom} {f : Funds Denom} {header : Header} {rewards : Coins Denom}
  {staking : Staking.Store} {val : Validator} {votes : List ConsAddress}

theorem allocateTokensToValidator_succeeds (payable : Payable chain header d val)
    (nonneg : 0 ≤ tokens) : ∃ d', allocateTokensToValidator chain header d val tokens = .ok d' := by
  by_cases active : checkDistributionProposalValid chain header d = true
  · obtain ⟨⟨_, hasCurrent⟩, _, hasOutstanding⟩ := payable.records active
    have shared : tokens.sub (tokens.mulDec
        (if d.distributionType = .onChain then val.commission.rate else one)) = some (tokens -
          tokens.mulDec (if d.distributionType = .onChain then val.commission.rate else one)) := by
      apply Coins.sub_of_le
      split
      · exact mulDec_le nonneg payable.rate_nonneg payable.rate_le
      · exact mulDec_le nonneg precision_pos.le le_rfl
    simp [allocateTokensToValidator, active, allocateTokensToValidatorForDistributionProposal, shared,
      orPanic, hasCurrent, hasOutstanding, mustGet, bind, Except.bind, pure, Except.pure]
  · simp [allocateTokensToValidator, active]

theorem allocateTokensToValidator_credited {d' : Store Denom} (nonneg : 0 ≤ tokens)
    (done : allocateTokensToValidator chain header d val tokens = .ok d') :
    Credited chain header d d' tokens := by
  unfold allocateTokensToValidator at done
  split at done
  · rename_i active
    simp only [allocateTokensToValidatorForDistributionProposal, bind, Except.bind, pure] at done
    split at done
    · cases done
    split at done
    · cases done
    split at done
    · cases done
    rename_i outstanding hasOutstanding
    cases done
    have held : (d.outstandingRewards.get val.operatorAddress).getD 0 = outstanding := by
      unfold mustGet at hasOutstanding
      split at hasOutstanding
      · rename_i stored
        rw [stored, Except.ok.inj hasOutstanding]
        rfl
      · cases hasOutstanding
    constructor
    · rfl
    · rfl
    · simp only [totalCredit]
      change (if checkDistributionProposalValid chain header d then _ else _) = _
      rw [active, if_pos rfl, if_pos rfl, ← held, sum_set_add]
    · intro other
      change (if _ then _ else _) ≤ if checkDistributionProposalValid chain header d then _ else _
      rw [active, if_pos rfl, ← held]
      exact getD_set_add _ _ _ nonneg
    · intro other before
      refine ⟨before.rate_nonneg, before.rate_le, fun _ => ?_⟩
      obtain ⟨withCurrent, withOutstanding⟩ := before.records active
      exact ⟨exists_set _ _ _ _ withCurrent, exists_set _ _ _ _ withOutstanding⟩
  · rename_i inactive
    cases done
    constructor
    · rfl
    · rfl
    · simp only [totalCredit]
      change (if checkDistributionProposalValid chain header d then _ else _) = _
      rw [if_neg inactive, if_neg inactive]
      exact sum_set_add _ _ _
    · intro other
      change (if _ then _ else _) ≤ if checkDistributionProposalValid chain header d then _ else _
      rw [if_neg inactive, if_neg inactive]
      exact getD_set_add _ _ _ nonneg
    · intro other before
      exact ⟨before.rate_nonneg, before.rate_le, fun now => absurd now inactive⟩

theorem allocateEach_ok (chain : Chain Denom) (header : Header)
    (reward : Validator → Except Failure (Coins Denom)) (amount : Validator → Coins Denom)
    (vals : List Validator) (rewards : ∀ val ∈ vals, reward val = .ok (amount val))
    (nonneg : ∀ val ∈ vals, 0 ≤ amount val) {remaining : Coins Denom}
    (payable : ∀ val ∈ vals, Payable chain header d val)
    (enough : (vals.map amount).sum ≤ remaining) :
    ∃ d', allocateEach chain header reward (d, remaining) vals =
        .ok (d', remaining - (vals.map amount).sum) ∧
      Credited chain header d d' (vals.map amount).sum := by
  induction vals generalizing d remaining with
  | nil => exact ⟨d, by simp [allocateEach], Credited.refl chain header d⟩
  | cons val rest ih =>
    have first := nonneg val mem_cons_self
    obtain ⟨_, allocated⟩ :=
      allocateTokensToValidator_succeeds (payable val mem_cons_self) first
    have credited := allocateTokensToValidator_credited first allocated
    have others : 0 ≤ (rest.map amount).sum := by
      apply List.sum_nonneg
      intro coins inside
      obtain ⟨other, listed, rfl⟩ := mem_map.mp inside
      exact nonneg other (mem_cons_of_mem val listed)
    have within : amount val ≤ remaining := (le_add_of_nonneg_right others).trans enough
    obtain ⟨d', done, after⟩ := ih
      (fun other listed => rewards other (mem_cons_of_mem val listed))
      (fun other listed => nonneg other (mem_cons_of_mem val listed))
      (fun other listed => credited.payable other (payable other (mem_cons_of_mem val listed)))
      (le_sub_iff_add_le'.mpr enough)
    refine ⟨d', ?_, ?_⟩
    · simp only [allocateEach, rewards val mem_cons_self, allocated, Coins.sub_of_le within,
        orPanic, bind, Except.bind, done, map_cons, sum_cons, sub_sub]
    · exact credited.trans after

/-- The validators that may get fees, and the tax, are as the stores keep them: after the
activation every validator has its records, no shares are negative. -/
structure Allocatable (chain : Chain Denom) (header : Header) (staking : Staking.Store)
    (d : Store Denom) : Prop where
  payable : ∀ addr val, staking.validators.get addr = some val → Payable chain header d val
  shares_nonneg : ∀ addr val, staking.validators.get addr = some val → 0 ≤ val.delegatorShares
  tax_nonneg : 0 ≤ d.communityTax
  tax_le : d.communityTax ≤ one

/-- The validators that share the first part of the fees. -/
def eligibleVoters (staking : Staking.Store) (votes : List ConsAddress) : List Validator :=
  (votes.filterMap staking.getValidatorByConsAddr).filter (!·.jailed)

theorem mem_of_getValidatorByConsAddr {cons : ConsAddress}
    (found : staking.getValidatorByConsAddr cons = some val) :
    ∃ addr, staking.validators.get addr = some val := by
  obtain ⟨addr, -, stored⟩ := Option.bind_eq_some_iff.mp found
  exact ⟨addr, stored⟩

omit [Fintype Denom] in
theorem eligibleVoters_payable (payable : ∀ addr val, staking.validators.get addr = some val →
      Payable chain header d val) (votes : List ConsAddress) :
    ∀ val ∈ eligibleVoters staking votes, Payable chain header d val := by
  intro val inside
  obtain ⟨_, -, found⟩ := mem_filterMap.mp (mem_filter.mp inside).1
  obtain ⟨addr, stored⟩ := mem_of_getValidatorByConsAddr found
  exact payable addr val stored

/-- Rewards split by chopped fractions of a whole are given out, and what remains is not
negative. -/
theorem allocateEach_parts
    {reward : Validator → Except Failure (Coins Denom)} {vals : List Validator}
    (part : Validator → Dec) (parts : ∀ val ∈ vals, 0 ≤ part val)
    (total : (vals.map part).sum = whole) (positive : 0 < whole)
    (nonneg : 0 ≤ rewards) (given : ∀ val ∈ vals, reward val = .ok (rewards.mulDecTruncate
      (FixedPoint.quoTruncate precision (part val) whole)))
    (payable : ∀ val ∈ vals, Payable chain header d val) :
    ∃ d' remaining, allocateEach chain header reward (d, rewards) vals = .ok (d', remaining) ∧
      Credited chain header d d' (rewards - remaining) ∧ 0 ≤ remaining := by
  have fractions := fun val member => FixedPoint.quoTruncate_nonneg precision_pos (parts val member)
      positive
  have enough := sum_mulDecTruncate_le vals _ nonneg fractions
    (sum_quoTruncate_le vals part parts total positive)
  obtain ⟨d', done, credited⟩ := allocateEach_ok chain header reward _ vals given
    (fun val member => mulDecTruncate_nonneg nonneg (fractions val member)) payable enough
  refine ⟨d', _, done, ?_, sub_nonneg.mpr enough⟩
  rw [sub_sub_cancel]
  exact credited

theorem allocateByEqual_ok

    (payable : ∀ addr val, staking.validators.get addr = some val → Payable chain header d val)
    (nonneg : 0 ≤ rewards) (voters : eligibleVoters staking votes ≠ []) :
    ∃ d' remaining, allocateByEqual chain header staking d rewards votes = .ok (d', remaining) ∧
      Credited chain header d d' (rewards - remaining) ∧ 0 ≤ remaining := by
  have one_nonneg : 0 ≤ ofInt 1 := by
    exact precision_pos.le
  have total : ((eligibleVoters staking votes).map fun _ => ofInt 1).sum =
      ofInt (eligibleVoters staking votes).length := by
    rw [map_const', sum_replicate, nsmul_eq_mul, ofInt, ofInt, one_mul]
  have divisor : 0 < ofInt (eligibleVoters staking votes).length := by
    have count := length_pos_of_ne_nil voters
    exact mul_pos (Int.natCast_pos.mpr count) precision_pos
  obtain ⟨d', remaining, done, credited⟩ := allocateEach_parts (fun _ => ofInt 1)
    (fun _ _ => one_nonneg) total divisor nonneg (fun _ _ => rfl)
    (eligibleVoters_payable payable votes)
  have quotient : orPanic (quoTruncate (ofInt 1)
      (ofInt (eligibleVoters staking votes).length)) "division by zero" =
      .ok (FixedPoint.quoTruncate precision (ofInt 1)
        (ofInt (eligibleVoters staking votes).length)) := by
    rw [quoTruncate_eq_some divisor.ne', orPanic]
  refine ⟨d', remaining, ?_, credited⟩
  exact (congrArg (· >>= _) quotient).trans done

theorem allocateByEqual_panics

    (noVoters : eligibleVoters staking votes = []) :
    allocateByEqual chain header staking d rewards votes = .error (.panic "division by zero") := by
  have quotient : orPanic (quoTruncate (ofInt 1)
      (ofInt (eligibleVoters staking votes).length)) "division by zero" =
      .error (.panic "division by zero") := by
    rw [noVoters]
    rfl
  exact congrArg (· >>= _) quotient

/-- The validators that share the second part of the fees. -/
def eligibleValidators (staking : Staking.Store) : List Validator :=
  staking.validators.values.filter (!·.jailed)

theorem mem_eligibleValidators : val ∈ eligibleValidators staking ↔
      val.jailed = false ∧ ∃ addr, staking.validators.get addr = some val := by
  rw [eligibleValidators, mem_filter, values, mem_map]
  constructor
  · rintro ⟨⟨⟨addr, same⟩, found, rfl⟩, free⟩
    exact ⟨by simpa using free, addr, (mem_pairs _ _ _).mp found⟩
  · rintro ⟨free, addr, found⟩
    exact ⟨⟨⟨addr, val⟩, (mem_pairs _ _ _).mpr found, rfl⟩, by simpa using free⟩

theorem allocateByShares_ok

    (payable : ∀ addr val, staking.validators.get addr = some val → Payable chain header d val)
    (shares_nonneg : ∀ val ∈ eligibleValidators staking, 0 ≤ val.delegatorShares)
    (total_pos : 0 < ((eligibleValidators staking).map (·.delegatorShares)).sum)
    (nonneg : 0 ≤ rewards) :
    ∃ d' remaining, allocateByShares chain header staking d rewards = .ok (d', remaining) ∧
      Credited chain header d d' (rewards - remaining) ∧ 0 ≤ remaining := by
  apply allocateEach_parts (·.delegatorShares) shares_nonneg rfl total_pos nonneg
  · intro val inside
    have quotient := quoTruncate_eq_some (a := val.delegatorShares) total_pos.ne'
    rw [eligibleValidators] at quotient
    rw [quotient]
    rfl
  · intro val inside
    obtain ⟨-, addr, found⟩ := mem_eligibleValidators.mp inside
    exact payable addr val found

theorem allocateByShares_panics (some_val : eligibleValidators staking ≠ [])
    (total_zero : ((eligibleValidators staking).map (·.delegatorShares)).sum = 0) :
    allocateByShares chain header staking d rewards = .error (.panic "division by zero") := by
  change allocateEach chain header _ (d, rewards) (eligibleValidators staking) = _
  obtain ⟨val, _, split⟩ := exists_cons_of_ne_nil some_val
  rw [split]
  have quotient : quoTruncate val.delegatorShares
      ((eligibleValidators staking).map (·.delegatorShares)).sum = none := if_pos total_zero
  change (orPanic (quoTruncate val.delegatorShares
    ((eligibleValidators staking).map (·.delegatorShares)).sum) _ >>= _) >>= _ = _
  rw [quotient]
  rfl

/-- Nothing is lost or created: the module account has what the fee collector held, and the
validators' credits and the community pool have grown by it. -/
structure FeesConserved (chain : Chain Denom) (header : Header) (f f' : Funds Denom) : Prop where
  collected : f'.bank .feeCollector = 0
  held : f'.bank .distribution = f.bank .distribution + f.bank .feeCollector
  shared : totalCredit chain header f'.distr + f'.distr.communityPool =
    totalCredit chain header f.distr + f.distr.communityPool + f.bank .feeCollector
  credit_grows : ∀ val, creditOf chain header f.distr val ≤ creditOf chain header f'.distr val
  pool_grows : f.distr.communityPool ≤ f'.distr.communityPool

/-- A part of the fees that the tax leaves. -/
def portion (f : Funds Denom) (part : Dec) : Coins Denom :=
  ((f.bank .feeCollector).mulDecTruncate (one - f.distr.communityTax)).mulDecTruncate part

/-- The fees move to the account of the module before they are divided. -/
theorem collect_ok (nonneg : 0 ≤ f.bank .feeCollector) :
    ∃ bank, f.sendCoins .feeCollector .distribution (f.bank .feeCollector) =
        .ok { f with bank } ∧ bank .feeCollector = 0 ∧
      bank .distribution = f.bank .distribution + f.bank .feeCollector := by
  obtain ⟨f', sent⟩ := @Funds.sendCoins_succeeds _ _ f _ .distribution _ nonneg le_rfl
  obtain ⟨same, -, -, balances⟩ := Funds.sendCoins_ok sent
  refine ⟨f'.bank, ?_, ?_, ?_⟩
  · rw [sent, ← same]
  all_goals simp [balances]

variable {power : Int}

omit [Fintype Denom] in
theorem Allocatable.eligible_nonneg (allocatable : Allocatable chain header staking d) :
    ∀ val ∈ eligibleValidators staking, 0 ≤ val.delegatorShares := by
  intro val inside
  obtain ⟨-, addr, found⟩ := mem_eligibleValidators.mp inside
  exact allocatable.shares_nonneg addr val found

section

variable (allocatable : Allocatable chain header staking f.distr)
  (nonneg : 0 ≤ f.bank .feeCollector)

include allocatable nonneg

omit [Fintype Denom] in
theorem portion_nonneg {part : Dec} (positive : 0 ≤ part) : 0 ≤ portion f part :=
  mulDecTruncate_nonneg
    (mulDecTruncate_nonneg nonneg (sub_nonneg.mpr allocatable.tax_le)) positive

omit [Fintype Denom] in
theorem portions_le : portion f valPortion + portion f votePortion ≤ f.bank .feeCollector := by
  have rest_nonneg : 0 ≤ one - f.distr.communityTax := sub_nonneg.mpr allocatable.tax_le
  have both := sum_mulDecTruncate_le [valPortion, votePortion] id
    (mulDecTruncate_nonneg nonneg rest_nonneg) (by decide) (by decide)
  simp only [map_cons, map_nil, sum_cons, sum_nil, add_zero] at both
  exact both.trans fun denom =>
    mulTruncate_le (nonneg denom) rest_nonneg (sub_le_self _ allocatable.tax_nonneg)

variable (some_fees : f.bank .feeCollector ≠ 0) (some_power : power ≠ 0)

include some_fees some_power

/-- The fees of a block with previous power: they are collected and the two parts are given out. -/
theorem allocateTokens_eq (votes : List ConsAddress) : ∃ bank : Bank Account Denom, bank .feeCollector = 0 ∧
    bank .distribution = f.bank .distribution + f.bank .feeCollector ∧
    allocateTokens chain header staking f power votes = do
      let (d, remainByEqual) ← allocateByEqual chain header staking f.distr (portion f valPortion) votes
      let (d, remainByShare) ← allocateByShares chain header staking d (portion f votePortion)
      let rest := f.bank .feeCollector - (portion f valPortion + portion f votePortion) +
        (remainByEqual + remainByShare)
      if rest = 0 then
        return ⟨bank, d⟩
      else
        return ⟨bank, { d with communityPool := f.distr.communityPool + rest }⟩ := by
  obtain ⟨bank, sent, collected, held⟩ := collect_ok nonneg
  refine ⟨bank, collected, held, ?_⟩
  have left := Coins.sub_of_le (portions_le allocatable nonneg)
  unfold portion at left ⊢
  unfold allocateTokens
  rw [if_neg some_fees, sent, panicOnError, ok_bind, if_neg some_power, divideFees, left, orPanic, ok_bind,
    bind_assoc]
  congr 1
  funext pair
  simp only [bind_assoc]
  congr 1
  funext pair
  obtain ⟨_, _⟩ := pair
  split
  · rfl
  · rfl

theorem allocateTokens_ok (voters : eligibleVoters staking votes ≠ [])
    (shares : 0 < ((eligibleValidators staking).map (·.delegatorShares)).sum) :
    ∃ f', allocateTokens chain header staking f power votes = .ok f' ∧
      FeesConserved chain header f f' := by
  obtain ⟨bank, collected, held, divided⟩ :=
    allocateTokens_eq allocatable nonneg some_fees some_power votes
  have rest_nonneg := sub_nonneg.mpr (portions_le allocatable nonneg)
  obtain ⟨_, remainByEqual, equal, credited₁, remains₁⟩ := allocateByEqual_ok
    allocatable.payable (portion_nonneg allocatable nonneg (by decide : 0 ≤ valPortion)) voters
  obtain ⟨d₂, remainByShare, byShares, credited₂, remains₂⟩ := allocateByShares_ok
    (fun addr val found => credited₁.payable val (allocatable.payable addr val found))
    allocatable.eligible_nonneg shares
    (portion_nonneg allocatable nonneg (by decide : 0 ≤ votePortion))
  have total := credited₂.total
  rw [credited₁.total] at total
  have grows := fun val => (credited₁.grows val).trans (credited₂.grows val)
  have pool := credited₂.pool.trans credited₁.pool
  rw [divided, equal]
  simp only [byShares, ok_bind]
  by_cases nothing : f.bank .feeCollector - (portion f valPortion + portion f votePortion) +
      (remainByEqual + remainByShare) = 0
  · refine ⟨⟨bank, d₂⟩, if_pos nothing, collected, held, ?_, grows, pool.ge⟩
    rw [total, pool]
    linear_combination -nothing
  refine ⟨_, if_neg nothing, collected, held, ?_, grows, ?_⟩
  · change totalCredit chain header d₂ + _ = _
    rw [total]
    ring
  · exact le_add_of_nonneg_right (add_nonneg rest_nonneg (add_nonneg remains₁ remains₂))

theorem allocateTokens_fails
    (empty : eligibleVoters staking votes = [] ∨ ((eligibleValidators staking).map (·.delegatorShares)).sum = 0) :
    allocateTokens chain header staking f power votes = .error (.panic "division by zero") := by
  obtain ⟨_, -, -, divided⟩ :=
    allocateTokens_eq allocatable nonneg some_fees some_power votes
  rw [divided]
  by_cases voters : eligibleVoters staking votes = []
  · rw [allocateByEqual_panics voters, error_bind]
  obtain ⟨_, _, equal, -⟩ := allocateByEqual_ok (d := f.distr)
    allocatable.payable (portion_nonneg allocatable nonneg (by decide : 0 ≤ valPortion)) voters
  have candidates : eligibleValidators staking ≠ [] := by
    obtain ⟨_, _, split⟩ := exists_cons_of_ne_nil voters
    obtain ⟨inside, free⟩ := mem_filter.mp (split ▸ mem_cons_self)
    obtain ⟨_, -, found⟩ := mem_filterMap.mp inside
    exact ne_nil_of_mem (mem_eligibleValidators.mpr
      ⟨by simpa using free, mem_of_getValidatorByConsAddr found⟩)
  rw [equal, ok_bind]
  simp [allocateByShares_panics candidates (empty.resolve_left voters)]

end

omit [Fintype Denom] in
theorem total_shares_pos_iff (allocatable : Allocatable chain header staking d) :
    0 < ((eligibleValidators staking).map (·.delegatorShares)).sum ↔
      ∃ addr val, staking.validators.get addr = some val ∧ val.jailed = false ∧
        0 < val.delegatorShares := by
  have nonneg := allocatable.eligible_nonneg
  constructor
  · intro positive
    by_contra noShares
    apply positive.ne'
    apply List.sum_eq_zero
    intro shares listed
    obtain ⟨val, inside, rfl⟩ := mem_map.mp listed
    obtain ⟨free, addr, found⟩ := mem_eligibleValidators.mp inside
    apply le_antisymm _ (nonneg val inside)
    exact not_lt.mp fun more => noShares ⟨addr, val, found, free, more⟩
  rintro ⟨addr, val, found, free, more⟩
  have inside := mem_eligibleValidators.mpr ⟨free, addr, found⟩
  apply lt_of_lt_of_le more
  apply single_le_sum
  · intro shares listed
    obtain ⟨other, member, rfl⟩ := mem_map.mp listed
    exact nonneg other member
  · exact mem_map_of_mem inside

theorem eligibleVoters_ne_nil_iff : eligibleVoters staking votes ≠ [] ↔
      ∃ vote ∈ votes, ∃ val, staking.getValidatorByConsAddr vote = some val ∧ val.jailed = false := by
  have member : ∀ val, val ∈ eligibleVoters staking votes ↔
      (∃ vote ∈ votes, staking.getValidatorByConsAddr vote = some val) ∧ val.jailed = false := by
    intro val
    rw [eligibleVoters, mem_filter, mem_filterMap, Bool.not_eq_true']
  constructor
  · intro some_voter
    obtain ⟨val, inside⟩ := exists_mem_of_ne_nil _ some_voter
    obtain ⟨⟨vote, listed, found⟩, free⟩ := (member val).mp inside
    exact ⟨vote, listed, val, found, free⟩
  · rintro ⟨vote, listed, val, found, free⟩
    exact ne_nil_of_mem ((member val).mpr ⟨⟨vote, listed, found⟩, free⟩)

def voter (jailed : Bool) : Validator where
  operatorAddress := 1
  consAddress := 7
  jailed := jailed
  status := .bonded
  tokens := 0
  delegatorShares := one
  unbondingHeight := 0
  unbondingCompletionTime := 0
  commission := ⟨one, one, 0⟩
  minSelfDelegation := one

def oneVoter (jailed : Bool) : Staking.Store where
  params := ⟨10, 21, 10, 30, 1, 1, by decide, by decide, by decide, by decide, by decide⟩
  epoch := 10
  theEndOfLastEpoch := 0
  validators := empty.set 1 (voter jailed)
  validatorsByConsAddr := empty.set 7 1
  validatorsByPower := ∅
  lastValidatorPower := empty.set 1 1
  lastTotalPower := 1
  validatorQueue := ∅
  abandonedValidatorAddrs := []
  delegators := ∅
  shares := ∅
  proxyBindings := ∅
  undelegations := ∅
  undelegateQueue := ∅

/-- One coin of fees, before the activation of the distribution proposal. -/
def collectedFees : Funds Unit where
  bank account := if account = .feeCollector then fun _ => one else 0
  distr :=
    { communityPool := 0, communityTax := withPrec 2 2, initExistedValidatorFlag := false,
      distributionType := .offChain, withdrawRewardEnabled := true, withdrawAddrEnabled := true,
      rewardTruncatePrecision := defaultRewardTruncatePrecision, delegatorWithdrawAddr := ∅,
      accumulatedCommission := ∅, outstandingRewards := ∅, currentRewards := ∅, historicalRewards := ∅, startingInfo := ∅ }

def testChain : Chain Unit := ⟨(), 0, 0, 0, fun _ => none, one_le_of_unweighted⟩

theorem oneVoter_allocatable (jailed : Bool) :
    Allocatable testChain ⟨2, 100⟩ (oneVoter jailed) collectedFees.distr where
  payable := forall_set ⟨precision_pos.le, le_rfl, fun active => by cases active⟩
    fun addr _ val found => by cases found
  shares_nonneg := forall_set precision_pos.le fun addr _ val found => by cases found
  tax_nonneg := by decide
  tax_le := by decide

theorem collectedFees_nonneg : 0 ≤ collectedFees.bank .feeCollector := fun _ => precision_pos.le

end Exchain.Distribution
