import Mathlib.Algebra.Order.Ring.Nat

/-! Gas meters. Going past the limit panics; so does going past 64 bits, which also sets the meter
back to zero. -/

namespace Exchain.BaseApp

inductive Panic where
  | outOfGas
  | other
  deriving DecidableEq, Repr

inductive GasMeter where
  | basic (limit consumed : Nat)
  | infinite (consumed : Nat)
  deriving DecidableEq, Repr

namespace GasMeter

/-- An infinite meter says that its limit is zero. -/
def limit : GasMeter → Nat
  | basic limit _ => limit
  | infinite _ => 0

def gasConsumed : GasMeter → Nat
  | basic _ consumed => consumed
  | infinite consumed => consumed

def gasConsumedToLimit : GasMeter → Nat
  | basic limit consumed => if limit < consumed then limit else consumed
  | infinite consumed => consumed

def isOutOfGas : GasMeter → Bool
  | basic limit consumed => decide (limit ≤ consumed)
  | infinite _ => false

def isPastLimit : GasMeter → Bool
  | basic limit consumed => decide (limit < consumed)
  | infinite _ => false

def setGas (meter : GasMeter) (value : Nat) : GasMeter := match meter with
  | basic limit _ => basic limit value
  | infinite _ => infinite value

def maxUint64 : Nat := 2 ^ 64 - 1

/-- The meter as it is left, and the panic if there is one. -/
def consumeGas (meter : GasMeter) (amount : Nat) : GasMeter × Option Panic :=
  if maxUint64 < meter.gasConsumed + amount then (meter.setGas 0, some .other)
  else
    let charged := meter.setGas (meter.gasConsumed + amount)
    match meter with
    | basic limit _ => (charged, if limit < charged.gasConsumed then some .outOfGas else none)
    | infinite _ => (charged, none)

/-- Charges one after the other, up to the first panic. -/
def charge (meter : GasMeter) : List Nat → GasMeter × Option Panic
  | [] => (meter, none)
  | amount :: rest =>
    match meter.consumeGas amount with
    | (meter, none) => meter.charge rest
    | (meter, some panic) => (meter, some panic)

theorem gasConsumedToLimit_le (meter : GasMeter) : meter.gasConsumedToLimit ≤ meter.gasConsumed := by
  cases meter with
  | basic =>
    unfold gasConsumedToLimit gasConsumed
    dsimp only
    split <;> omega
  | infinite => exact Nat.le_refl _

theorem gasConsumedToLimit_eq_iff (meter : GasMeter) :
    meter.gasConsumedToLimit = meter.gasConsumed ↔ meter.isPastLimit = false := by
  cases meter with
  | basic =>
    simp only [gasConsumedToLimit, gasConsumed, isPastLimit, decide_eq_false_iff_not]
    split <;> omega
  | infinite => simp [gasConsumedToLimit, gasConsumed, isPastLimit]

variable {amount : Nat} {amounts : List Nat} {consumed limit : Nat} {meter : GasMeter}

theorem consumeGas_calm (calm : (basic limit consumed).consumeGas amount = (meter, none)) :
    meter = basic limit (consumed + amount) ∧ consumed + amount ≤ limit := by
  unfold consumeGas at calm
  split at calm
  · cases calm
  obtain ⟨left, fits⟩ := Prod.mk.inj calm
  refine ⟨left.symm, ?_⟩
  split at fits
  · cases fits
  rename_i within
  exact Nat.not_lt.mp within

theorem consumeGas_of_le (small : limit ≤ maxUint64) (fits : consumed + amount ≤ limit) :
    (basic limit consumed).consumeGas amount = (basic limit (consumed + amount), none) := by
  have left : ¬ maxUint64 < (basic limit consumed).gasConsumed + amount := by
    show ¬ maxUint64 < consumed + amount
    omega
  unfold consumeGas
  rw [if_neg left]
  exact Prod.ext rfl (if_neg (Nat.not_lt.mpr fits))

theorem consumeGas_of_lt (past : limit < consumed + amount) :
    ∃ meter panic, (basic limit consumed).consumeGas amount = (meter, some panic) := by
  unfold consumeGas
  split
  · exact ⟨_, _, rfl⟩
  · exact ⟨_, _, Prod.ext rfl (if_pos past)⟩

theorem charge_calm (start : consumed ≤ limit)
    (calm : (basic limit consumed).charge amounts = (meter, none)) :
    meter = basic limit (consumed + amounts.sum) ∧ consumed + amounts.sum ≤ limit := by
  induction amounts generalizing consumed with
  | nil =>
    obtain ⟨rfl, -⟩ := Prod.mk.inj calm
    exact ⟨rfl, start⟩
  | cons _ _ ih =>
    unfold charge at calm
    split at calm
    · rename_i charged step
      obtain ⟨rfl, within⟩ := consumeGas_calm step
      obtain ⟨same, bound⟩ := ih within calm
      rw [List.sum_cons, ← Nat.add_assoc]
      exact ⟨same, bound⟩
    · cases calm

theorem charge_of_fits (fits : consumed + amounts.sum ≤ limit)
    (small : limit ≤ maxUint64) : (basic limit consumed).charge amounts = (basic limit (consumed + amounts.sum), none) := by
  induction amounts generalizing consumed with
  | nil => rfl
  | cons _ _ ih =>
    rw [List.sum_cons] at fits ⊢
    unfold charge
    rw [consumeGas_of_le small (by omega), ← Nat.add_assoc]
    exact ih (by omega)

theorem charge_basic (limit consumed : Nat) (amounts : List Nat) :
    ∃ total, ((basic limit consumed).charge amounts).1 = basic limit total := by
  induction amounts generalizing consumed with
  | nil => exact ⟨consumed, rfl⟩
  | cons amount rest ih =>
    have step : ∃ total, ((basic limit consumed).consumeGas amount).1 = basic limit total := by
      unfold consumeGas
      split
      · exact ⟨0, rfl⟩
      · exact ⟨consumed + amount, rfl⟩
    obtain ⟨total, step⟩ := step
    unfold charge
    split
    · rename_i charged calm
      rw [calm] at step
      obtain rfl : charged = basic limit total := step
      exact ih total
    · rename_i charged panic stopped
      rw [stopped] at step
      exact ⟨total, step⟩

theorem charge_within {panic : Option Panic}
    (start : consumed ≤ limit) (charged : (basic limit consumed).charge amounts = (meter, panic))
    (gasLeft : panic ≠ some .outOfGas) : ∃ total, meter = basic limit total ∧ total ≤ limit := by
  induction amounts generalizing consumed with
  | nil =>
    obtain ⟨rfl, -⟩ := Prod.mk.inj charged
    exact ⟨consumed, rfl, start⟩
  | cons _ _ ih =>
    unfold charge at charged
    split at charged
    · rename_i after step
      obtain ⟨rfl, within⟩ := consumeGas_calm step
      exact ih within charged
    rename_i after stop step
    cases charged
    unfold consumeGas at step
    split at step
    · obtain ⟨rfl, -⟩ := Prod.mk.inj step
      exact ⟨0, rfl, Nat.zero_le _⟩
    obtain ⟨-, past⟩ := Prod.mk.inj step
    split at past
    · exact absurd past.symm gasLeft
    · cases past

theorem charge_no_overflow (start : consumed ≤ limit)
    (room : ∀ amount ∈ amounts, limit + amount ≤ maxUint64) :
    ((basic limit consumed).charge amounts).2 ≠ some .other := by
  induction amounts generalizing consumed with
  | nil => exact nofun
  | cons amount rest ih =>
    have here : ¬ maxUint64 < (basic limit consumed).gasConsumed + amount := by
      have bound := room amount List.mem_cons_self
      show ¬ maxUint64 < consumed + amount
      omega
    unfold charge
    split
    · rename_i charged step
      obtain ⟨rfl, within⟩ := consumeGas_calm step
      exact ih within (fun a mem => room a (List.mem_cons_of_mem _ mem))
    rename_i charged panic step
    unfold consumeGas at step
    rw [if_neg here] at step
    obtain ⟨-, past⟩ := Prod.mk.inj step
    split at past
    · rw [← past]
      exact nofun
    · cases past

theorem consumed_le_charge {panic : Option Panic}
    (charged : (basic limit consumed).charge amounts = (meter, panic)) (fits : panic ≠ some .other) :
    ∃ total, meter = basic limit total ∧ consumed ≤ total := by
  induction amounts generalizing consumed with
  | nil =>
    obtain ⟨rfl, -⟩ := Prod.mk.inj charged
    exact ⟨consumed, rfl, Nat.le_refl _⟩
  | cons amount rest ih =>
    unfold charge at charged
    split at charged
    · rename_i after step
      obtain ⟨rfl, -⟩ := consumeGas_calm step
      obtain ⟨total, same, _⟩ := ih charged
      exact ⟨total, same, by omega⟩
    rename_i after stop step
    cases charged
    unfold consumeGas at step
    split at step
    · obtain ⟨-, past⟩ := Prod.mk.inj step
      exact absurd past.symm fits
    · obtain ⟨rfl, -⟩ := Prod.mk.inj step
      exact ⟨consumed + amount, rfl, by omega⟩

end GasMeter

end Exchain.BaseApp
