import Exchain.Lib.FixedPoint

/-! The decimal type of the SDK. The bound of 315 bits on results is not modelled: no amount comes
near it. -/

namespace Exchain

/-- A decimal with 18 places, as the number of its smallest units. -/
abbrev Dec := Int

namespace Dec

/-- How many smallest units make one. -/
def precision : Int := 1000000000000000000

theorem precision_pos : 0 < precision := by decide

def ofInt (i : Int) : Dec := i * precision

def withPrec (i : Int) (prec : Nat) : Dec := i * 10 ^ (18 - prec)

def one : Dec := precision

def mul (a b : Dec) : Dec := FixedPoint.mul precision a b

def mulTruncate (a b : Dec) : Dec := FixedPoint.mulTruncate precision a b

/-- The quotient chopped towards zero; dividing by zero panics. -/
def quoTruncate (a b : Dec) : Option Dec :=
  if b = 0 then none else some (FixedPoint.quoTruncate precision a b)

/-- The part of a decimal that has at most `prec` places. -/
def truncateWithPrec (prec : Nat) (a : Dec) : Dec := a.tdiv (withPrec 1 prec) * withPrec 1 prec

variable {a b : Dec}

variable (left : 0 ≤ a)
include left

theorem mulTruncate_nonneg (right : 0 ≤ b) : 0 ≤ mulTruncate a b :=
  FixedPoint.mulTruncate_nonneg precision_pos left right

theorem mulTruncate_mul_le (right : 0 ≤ b) : mulTruncate a b * precision ≤ a * b :=
  FixedPoint.mulTruncate_mul_le precision_pos left right

theorem mulTruncate_le (right : 0 ≤ b) (fraction : b ≤ one) : mulTruncate a b ≤ a :=
  FixedPoint.mulTruncate_le_of_le_unit precision_pos left right fraction

omit left in
theorem quoTruncate_eq_some (divides : b ≠ 0) :
    quoTruncate a b = some (FixedPoint.quoTruncate precision a b) := if_neg divides

/-- Rounding to the nearest unit does not pass the amount itself. -/
theorem mul_le (right : 0 ≤ b) (fraction : b ≤ one) : mul a b ≤ a := by
  have product : 0 ≤ a * b := mul_nonneg left right
  rw [mul, FixedPoint.mul, FixedPoint.chopRound, if_neg (not_lt.mpr product)]
  exact FixedPoint.roundHalfEven_le precision_pos (mul_le_mul_of_nonneg_left fraction left)

/-- A factor of at least one makes nothing smaller. -/
theorem le_mul (factor : one ≤ b) : a ≤ mul a b := by
  have product : 0 ≤ a * b := mul_nonneg left (precision_pos.le.trans factor)
  rw [mul, FixedPoint.mul, FixedPoint.chopRound, if_neg (not_lt.mpr product)]
  exact FixedPoint.le_roundHalfEven precision_pos (mul_le_mul_of_nonneg_left factor left)

end Dec

end Exchain
