import Exchain.Lib.AssocMap
import Exchain.Lib.Fallible
import Exchain.Sdk.Bank
import Mathlib.Data.List.Sort

namespace Exchain.Mint

open Dec (one precision)

/-- The module account, and what is known about addresses. -/
structure Config (Account : Type) where
  mint : Account
  isEmpty : Account → Bool
  blacklistedAddr : Account → Bool

structure Treasure (Account : Type) where
  address : Account
  proportion : Dec

inductive Err (Account : Type) where
  | proportion (proportion : Dec)
  | addressIsNil
  | sumProportion (sumProportion : Dec)
  | notExist (address : Account)
  | inBlacklist (address : Account)
  | sendCoins (error : SendError)
  | negativeCoinAmount

variable {Account Denom : Type} {cfg : Config Account} {treasures : List (Treasure Account)}

def Treasure.validateBasic (cfg : Config Account) (t : Treasure Account) : Except (Err Account) Unit :=
  if t.proportion ≤ 0 ∨ one < t.proportion then .error (.proportion t.proportion)
  else if cfg.isEmpty t.address then .error .addressIsNil
  else .ok ()

/-- ValidateTreasures, from the sum so far. -/
def validateTreasures (cfg : Config Account) (sumProportion : Dec) :
    List (Treasure Account) → Except (Err Account) Unit
  | [] =>
    if sumProportion < 0 ∨ one < sumProportion then .error (.sumProportion sumProportion) else .ok ()
  | t :: rest => do
    t.validateBasic cfg
    validateTreasures cfg (sumProportion + t.proportion) rest

theorem proportioned_of_valid {sumProportion : Dec}
    (valid : validateTreasures cfg sumProportion treasures = .ok ()) :
    (∀ t ∈ treasures, 0 < t.proportion) ∧
      sumProportion + (treasures.map (·.proportion)).sum ≤ one := by
  induction treasures generalizing sumProportion with
  | nil =>
    simp only [validateTreasures] at valid
    split at valid
    · cases valid
    · rename_i within
      simpa using (not_or.mp within).2
  | cons t rest ih =>
    obtain ⟨_, basic, valid⟩ := Fallible.bind_eq_ok.mp valid
    obtain ⟨positive, within⟩ := ih valid
    unfold Treasure.validateBasic at basic
    split at basic
    · cases basic
    rename_i fraction
    refine ⟨List.forall_mem_cons.mpr ⟨not_le.mp (not_or.mp fraction).1, positive⟩, ?_⟩
    rwa [List.map_cons, List.sum_cons, ← add_assoc]

variable [LinearOrder Account] {fees : Coins Denom}

def getMapFromTreasures (treasures : List (Treasure Account)) : AssocMap Account (Treasure Account) :=
  treasures.foldl (fun temp t => temp.insert t.address t) ∅

def getTreasuresFromMap (temp : AssocMap Account (Treasure Account)) : List (Treasure Account) :=
  (temp.entries.map (·.2)).insertionSort (fun t u => u.address ≤ t.address)

def insertAndUpdateTreasures (src dst : List (Treasure Account)) : List (Treasure Account) :=
  getTreasuresFromMap (dst.foldl (fun temp t => temp.insert t.address t) (getMapFromTreasures src))

def deleteTreasures (src dst : List (Treasure Account)) :
    Except (Err Account) (List (Treasure Account)) := do
  let temp ← dst.foldlM (fun temp t =>
    if t.address ∈ temp then .ok (temp.erase t.address) else .error (.notExist t.address))
    (getMapFromTreasures src)
  return getTreasuresFromMap temp

/-- The treasures that a proposal leaves in the store. One that fails leaves them as they were. -/
def handleManageTreasuresProposal (cfg : Config Account) (treasures : List (Treasure Account))
    (isAdded : Bool) (given : List (Treasure Account)) :
    Except (Err Account) (List (Treasure Account)) := do
  let result ← (if isAdded then .ok (insertAndUpdateTreasures treasures given)
    else deleteTreasures treasures given)
  validateTreasures cfg 0 result
  return result

/-- How far an allocation has come: what is left and what was sent, the last part first. -/
structure Allocation (Account Denom : Type) where
  bank : Bank Account Denom
  remain : Coins Denom
  sent : List (Coins Denom)

/-- The loop of AllocateTokenToTreasure. Where the difference is negative, Sub panics first. -/
def allocate [Fintype Denom] (cfg : Config Account) (fees : Coins Denom) :
    List (Treasure Account) → Allocation Account Denom → Allocation Account Denom × Option (Err Account)
  | [], a => (a, none)
  | t :: rest, a =>
    let allocated := fees.mulDecTruncate t.proportion
    if cfg.blacklistedAddr t.address then (a, some (.inBlacklist t.address))
    else
      match a.bank.sendCoins cfg.mint t.address allocated with
      | .error error => (a, some (.sendCoins error))
      | .ok bank =>
        match a.remain.sub allocated with
        | none => (a, some .negativeCoinAmount)
        | some remain => allocate cfg fees rest ⟨bank, remain, allocated :: a.sent⟩

def allocateTokenToTreasure [Fintype Denom] (cfg : Config Account) (bank : Bank Account Denom)
    (treasures : List (Treasure Account)) (fees : Coins Denom) :
    Allocation Account Denom × Option (Err Account) :=
  allocate cfg fees treasures ⟨bank, fees, []⟩

/-- Proportions are positive and add up to at most one. -/
def Proportioned (treasures : List (Treasure Account)) : Prop :=
  (∀ t ∈ treasures, 0 < t.proportion) ∧ (treasures.map (·.proportion)).sum ≤ one

/-- Nothing is lost, and no part is negative. -/
def Allocation.Conserves (fees : Coins Denom) (a : Allocation Account Denom) : Prop :=
  a.sent.sum + a.remain = fees ∧ (∀ part ∈ a.sent, 0 ≤ part) ∧ 0 ≤ a.remain

/-- One part is taken from what the remaining proportions leave room for. -/
theorem room_after {fee remain share rest : Dec} (minted : 0 ≤ fee) (positive : 0 < share)
    (others : 0 ≤ rest) (room : fee * (share + rest) ≤ remain * precision) :
    Dec.mulTruncate fee share ≤ remain ∧
      fee * rest ≤ (remain - Dec.mulTruncate fee share) * precision := by
  have taken := Dec.mulTruncate_mul_le minted positive.le
  have left : fee * rest ≤ (remain - Dec.mulTruncate fee share) * precision := by
    rw [mul_add] at room
    rw [sub_mul]
    exact le_sub_iff_add_le'.mpr ((add_le_add taken le_rfl).trans room)
  refine ⟨?_, left⟩
  have product := (mul_nonneg minted others).trans left
  exact sub_nonneg.mp (nonneg_of_mul_nonneg_left product Dec.precision_pos)

theorem allocate_conserves [Fintype Denom] {a : Allocation Account Denom} (minted : 0 ≤ fees)
    (positive : ∀ t ∈ treasures, 0 < t.proportion)
    (room : ∀ d, fees d * (treasures.map (·.proportion)).sum ≤ a.remain d * precision)
    (conserves : a.Conserves fees) :
    (allocate cfg fees treasures a).1.Conserves fees ∧
      (a.remain ≤ a.bank cfg.mint → (allocate cfg fees treasures a).2 = none ∨
        ∃ t ∈ treasures, cfg.blacklistedAddr t.address = true) := by
  induction treasures generalizing a with
  | nil => exact ⟨conserves, fun _ => .inl rfl⟩
  | cons t rest ih =>
    obtain ⟨share, others⟩ := List.forall_mem_cons.mp positive
    have total : 0 ≤ (rest.map (·.proportion)).sum := by
      apply List.sum_nonneg
      simp only [List.forall_mem_map]
      exact fun u among => (others u among).le
    simp only [List.map_cons, List.sum_cons] at room
    have after d := room_after (minted d) share total (room d)
    have part : 0 ≤ fees.mulDecTruncate t.proportion := fun d =>
      Dec.mulTruncate_nonneg (minted d) share.le
    have enough : fees.mulDecTruncate t.proportion ≤ a.remain := fun d => (after d).1
    simp only [allocate]
    split
    · rename_i blacklisted
      exact ⟨conserves, fun _ => .inr ⟨t, List.mem_cons_self, blacklisted⟩⟩
    split
    · rename_i failed
      refine ⟨conserves, fun funded => ?_⟩
      obtain ⟨bank, done⟩ := Bank.sendCoins_succeeds part (enough.trans funded)
      cases done.symm.trans failed
    rename_i bank done
    rw [Coins.sub_of_le enough]
    obtain ⟨sum, parts, _⟩ := conserves
    have next : Allocation.Conserves fees
        ⟨bank, a.remain - fees.mulDecTruncate t.proportion,
          fees.mulDecTruncate t.proportion :: a.sent⟩ := by
      refine ⟨?_, List.forall_mem_cons.mpr ⟨part, parts⟩, sub_nonneg.mpr enough⟩
      rw [List.sum_cons, add_right_comm, add_sub_cancel, add_comm, sum]
    obtain ⟨kept, outcome⟩ := ih others (fun d => (after d).2) next
    refine ⟨kept, fun funded => ?_⟩
    -- the mint account pays the part, and gets it back where it is itself a treasure
    have paid : a.remain - fees.mulDecTruncate t.proportion ≤ bank cfg.mint := by
      rw [(Bank.sendCoins_ok done).2.2 cfg.mint, if_pos rfl]
      refine (sub_le_sub_right funded _).trans (le_add_of_nonneg_right ?_)
      split
      · exact part
      · exact le_rfl
    refine (outcome paid).imp id ?_
    rintro ⟨u, among, blacklisted⟩
    exact ⟨u, List.mem_cons_of_mem _ among, blacklisted⟩

end Exchain.Mint
