import Exchain.Sdk.Dec

/-! What a farm pool yields: a message that touches it first books what its provided tokens have
yielded in the current period, and begins a new one. The rewards that the message then pays are left
out. -/

namespace Exchain.Farm

structure YieldedTokenInfo where
  remainingAmount : Dec
  startBlockHeightToYield : Int
  amountYieldedPerBlock : Dec

/-- A pool, with the height at which its current period began. -/
structure FarmPool where
  yieldedTokenInfos : List YieldedTokenInfo
  startBlockHeight : Int

inductive Touch where
  | lock
  | unlock
  | claim
  | provide (info : YieldedTokenInfo)

namespace YieldedTokenInfo

variable (info : YieldedTokenInfo)

/-- One round of CalculateAmountYieldedBetween: what is left of a token, and what it has yielded. -/
def yielded (periodStart endBlockHeight : Int) : YieldedTokenInfo × Dec :=
  let startBlockHeight := max periodStart info.startBlockHeightToYield
  if info.startBlockHeightToYield = 0 ∨ endBlockHeight ≤ startBlockHeight then (info, 0)
  else
    let amount := Dec.mulTruncate (Dec.ofInt (endBlockHeight - startBlockHeight))
      info.amountYieldedPerBlock
    if amount < info.remainingAmount then
      ({ info with remainingAmount := info.remainingAmount - amount }, amount)
    else (⟨0, 0, 0⟩, info.remainingAmount)

/-- What a token yields between two heights. -/
def due (periodStart height : Int) : Dec :=
  if info.startBlockHeightToYield = 0 then 0
  else min info.remainingAmount
    (info.amountYieldedPerBlock * max 0 (height - max periodStart info.startBlockHeightToYield))

/-- ValidateBasic of MsgProvide. -/
def Valid : Prop :=
  0 < info.remainingAmount ∧ 0 < info.amountYieldedPerBlock ∧
    info.amountYieldedPerBlock ≤ info.remainingAmount ∧ 0 < info.startBlockHeightToYield

instance (info : YieldedTokenInfo) : Decidable info.Valid :=
  inferInstanceAs (Decidable (_ ∧ _ ∧ _ ∧ _))

def Sound : Prop :=
  0 ≤ info.remainingAmount ∧ 0 ≤ info.amountYieldedPerBlock

variable {info : YieldedTokenInfo} {periodStart height last : Int}

/-- A touch in between splits what is due, also when it spends the token. -/
theorem Sound.yielded (sound : info.Sound) (after : periodStart ≤ height) (later : height ≤ last) :
    (info.yielded periodStart height).1.Sound ∧ (info.yielded periodStart height).2 +
      (info.yielded periodStart height).1.due height last = info.due periodStart last := by
  obtain ⟨left, start, rate⟩ := info
  have amount (blocks : Int) : Dec.mulTruncate (Dec.ofInt blocks) rate = rate * blocks := by
    rw [Dec.mulTruncate, FixedPoint.mulTruncate, FixedPoint.chopTruncate, Dec.ofInt, mul_right_comm,
      Int.mul_tdiv_cancel _ Dec.precision_pos.ne', mul_comm]
  simp only [YieldedTokenInfo.yielded, due, amount]
  by_cases idle : start = 0
  · exact ⟨by simpa [idle] using sound, by simp [idle]⟩
  simp only [idle, false_or, if_false]
  split
  · have same : max 0 (last - max height start) = max 0 (last - max periodStart start) := by omega
    simp [same, sound]
  have elapsed : max 0 (last - max periodStart start) = last - max periodStart start := by omega
  rw [elapsed]
  split
  · rename_i more
    have since : max 0 (last - max height start) = last - height := by omega
    refine ⟨⟨sub_nonneg.mpr more.le, sound.2⟩, ?_⟩
    simp only [since]
    rw [← min_add_add_left, add_sub_cancel, ← mul_add]
    congr 2
    ring
  · rename_i spent
    have reached := mul_le_mul_of_nonneg_left (sub_le_sub_right later (max periodStart start)) sound.2
    refine ⟨⟨le_rfl, le_rfl⟩, ?_⟩
    rw [if_pos rfl, add_zero, min_eq_left ((not_lt.mp spent).trans reached)]

end YieldedTokenInfo

namespace FarmPool

def calculateAmountYieldedBetween (pool : FarmPool) (height : Int) : List (YieldedTokenInfo × Dec) :=
  pool.yieldedTokenInfos.map (·.yielded pool.startBlockHeight height)

/-- A message at a height, or none if refused. A token is provided once nothing is left of the only
one before. -/
def handle (pool : FarmPool) (height : Int) : Touch → Option FarmPool
  | .provide info => match pool.calculateAmountYieldedBetween height with
    | [(left, _)] =>
      if info.Valid ∧ height < info.startBlockHeightToYield ∧ left.remainingAmount = 0 then
        some ⟨[info], height⟩
      else none
    | _ => none
  | _ => some ⟨(pool.calculateAmountYieldedBetween height).map Prod.fst, height⟩

/-- What a token of a pool yields over messages that are all accepted, until another one replaces
it. -/
def released (i : Nat) (pool : FarmPool) : List (Int × Touch) → Option Dec
  | [] => some 0
  | (height, touch) :: rest => do
    let next ← pool.handle height touch
    let (_, now) ← (pool.calculateAmountYieldedBetween height)[i]?
    let later ← (match touch with
      | .provide _ => some 0
      | _ => next.released i rest)
    return now + later

variable {pool : FarmPool} {i : Nat} {info : YieldedTokenInfo} {touches : List (Int × Touch)} {total : Dec}

theorem released_eq_due (source : pool.yieldedTokenInfos[i]? = some info) (sound : info.Sound)
    (increasing : (pool.startBlockHeight :: touches.map Prod.fst).Pairwise (· ≤ ·))
    (accepted : pool.released i touches = some total) : total = info.due pool.startBlockHeight
      ((touches.map Prod.fst).getLastD pool.startBlockHeight) := by
  induction touches generalizing pool info total with
  | nil =>
    cases accepted
    have none : max 0 (pool.startBlockHeight -
        max pool.startBlockHeight info.startBlockHeightToYield) = 0 := by omega
    rw [List.map_nil, List.getLastD_nil, YieldedTokenInfo.due, none, mul_zero, min_eq_right sound.1,
      ite_self]
  | cons message rest ih =>
    obtain ⟨height, touch⟩ := message
    have yields : (pool.calculateAmountYieldedBetween height)[i]? =
        some (info.yielded pool.startBlockHeight height) := by
      simp [calculateAmountYieldedBetween, source]
    obtain ⟨before, ordered⟩ := List.pairwise_cons.mp increasing
    have latest : height ≤ (rest.map Prod.fst).getLastD height := by
      rcases List.mem_cons.mp (List.getLastD_mem_cons ..) with same | among
      · exact same.ge
      · exact (List.pairwise_cons.mp ordered).1 _ among
    obtain ⟨kept, split⟩ := sound.yielded (before height (by simp)) latest
    rw [List.map_cons, List.getLastD_cons, ← split]
    obtain ⟨next, handled, accepted⟩ := Option.bind_eq_some_iff.mp accepted
    obtain ⟨_, same, accepted⟩ := Option.bind_eq_some_iff.mp accepted
    cases yields.symm.trans same
    obtain ⟨later, given, same⟩ := Option.bind_eq_some_iff.mp accepted
    cases same
    congr 1
    cases touch with
    | lock | unlock | claim =>
      cases handled
      exact @ih ⟨_, height⟩ _ _ (by simp [yields]) kept ordered given
    | provide other =>
      cases given
      have spent : (info.yielded pool.startBlockHeight height).1.remainingAmount = 0 := by
        grind [handle]
      rw [YieldedTokenInfo.due, spent, min_eq_left (mul_nonneg kept.2 (le_max_left ..)), ite_self]

/-- However often a pool is touched after a token was provided: by the last height it has given out
all of it, or its rate for every block since it started if that is less. -/
theorem released_eq_min {height : Int} {start : FarmPool}
    (provided : pool.handle height (.provide info) = some start)
    (increasing : (height :: touches.map Prod.fst).Pairwise (· ≤ ·))
    (accepted : start.released 0 touches = some total) :
    total = min info.remainingAmount (info.amountYieldedPerBlock *
      max 0 ((touches.map Prod.fst).getLastD height - info.startBlockHeightToYield)) := by
  simp only [handle] at provided
  split at provided
  · split at provided
    · rename_i valid
      cases provided
      obtain ⟨⟨amount, rate, -, positive⟩, ahead, -⟩ := valid
      rw [released_eq_due rfl ⟨amount.le, rate.le⟩ increasing accepted, YieldedTokenInfo.due,
        if_neg positive.ne', max_eq_right ahead.le]
    · cases provided
  · cases provided

/-- A token that is spent between two touches, and replaced. -/
theorem released_eq_min_spent : ∃ start,
    handle ⟨[⟨0, 0, 0⟩], 0⟩ 1 (.provide ⟨5, 3, 2⟩) = some start ∧
      start.released 0 [(4, .claim), (9, .provide ⟨1, 20, 1⟩), (30, .lock)] = some 5 ∧
      (5 : Dec) = min 5 (2 * max 0 (30 - 3)) := by
  have accepted : released 0 ⟨[⟨5, 3, 2⟩], 1⟩
      [(4, .claim), (9, .provide ⟨1, 20, 1⟩), (30, .lock)] = some 5 := by decide
  have provided : handle ⟨[⟨0, 0, 0⟩], 0⟩ 1 (.provide ⟨5, 3, 2⟩) = some ⟨[⟨5, 3, 2⟩], 1⟩ := rfl
  exact ⟨_, provided, accepted, released_eq_min provided (by decide) accepted⟩

end FarmPool

end Exchain.Farm
