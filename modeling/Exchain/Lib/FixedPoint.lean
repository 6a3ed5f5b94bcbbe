import Mathlib.Tactic.Linarith
import Mathlib.Tactic.Ring
import Mathlib.Tactic.Positivity

/-! Fixed-point numbers: an integer counts units of one over `unit`. -/

namespace FixedPoint

def chopTruncate (unit d : Int) : Int := d.tdiv unit

/-- Round a number that is not negative; a remainder of exactly one half rounds to even. -/
def roundHalfEven (unit d : Int) : Int := if d % unit = 0 then d / unit
  else if d % unit < unit / 2 then d / unit
  else if unit / 2 < d % unit then d / unit + 1
  else if d / unit % 2 = 0 then d / unit
  else d / unit + 1

def chopRound (unit d : Int) : Int :=
  if d < 0 then -roundHalfEven unit (-d) else roundHalfEven unit d

def mul (unit a b : Int) : Int := chopRound unit (a * b)

def mulTruncate (unit a b : Int) : Int := chopTruncate unit (a * b)

def quoTruncate (unit a b : Int) : Int := chopTruncate unit ((a * unit * unit).tdiv b)

variable {a b unit : Int}

section

variable (positive : 0 < unit) (left : 0 ≤ a)

include positive left

theorem mulTruncate_nonneg (right : 0 ≤ b) : 0 ≤ mulTruncate unit a b :=
  Int.tdiv_nonneg (mul_nonneg left right) positive.le

/-- Chopping a product towards zero never credits more than the product. -/
theorem mulTruncate_mul_le (right : 0 ≤ b) : mulTruncate unit a b * unit ≤ a * b := by
  have product : 0 ≤ a * b := mul_nonneg left right
  rw [mulTruncate, chopTruncate, Int.tdiv_eq_ediv_of_nonneg product]
  exact Int.ediv_mul_le _ positive.ne'

theorem mulTruncate_le_of_le_unit (right : 0 ≤ b) (fraction : b ≤ unit) : mulTruncate unit a b ≤ a := by
  have below := mulTruncate_mul_le positive left right
  have scaled : a * b ≤ a * unit := mul_le_mul_of_nonneg_left fraction left
  exact le_of_mul_le_mul_right (below.trans scaled) positive

theorem quoTruncate_eq_ediv (right : 0 < b) : quoTruncate unit a b = a * unit / b := by
  have scaled : 0 ≤ a * unit * unit := by positivity
  have quotient : 0 ≤ a * unit * unit / b := Int.ediv_nonneg scaled right.le
  rw [quoTruncate, chopTruncate, Int.tdiv_eq_ediv_of_nonneg scaled,
    Int.tdiv_eq_ediv_of_nonneg quotient, Int.ediv_ediv_of_nonneg right.le, mul_comm b unit,
    ← Int.ediv_ediv_of_nonneg positive.le, Int.mul_ediv_cancel _ positive.ne']

theorem quoTruncate_nonneg (right : 0 < b) : 0 ≤ quoTruncate unit a b := by
  rw [quoTruncate_eq_ediv positive left right]
  exact Int.ediv_nonneg (by positivity) right.le

/-- Chopping a quotient towards zero: times the divisor it gives at most the dividend. -/
theorem quoTruncate_mul_le (right : 0 < b) : quoTruncate unit a b * b ≤ a * unit := by
  rw [quoTruncate_eq_ediv positive left right]
  exact Int.ediv_mul_le _ right.ne'

end

theorem roundHalfEven_le {d bound : Int} (positive : 0 < unit) (below : d ≤ bound * unit) :
    roundHalfEven unit d ≤ bound := by
  have whole := Int.mul_ediv_add_emod d unit
  have rest := Int.emod_nonneg d positive.ne'
  have floor : d / unit ≤ bound := Int.ediv_le_of_le_mul positive below
  have strict (up : 0 < d % unit) : d / unit + 1 ≤ bound := by
    by_contra reached
    have same : d / unit = bound := by omega
    rw [same] at whole
    linarith [mul_comm unit bound]
  unfold roundHalfEven
  split
  · exact floor
  rename_i inexact
  have up := strict (lt_of_le_of_ne rest (Ne.symm inexact))
  split
  · exact floor
  split
  · exact up
  split
  · exact floor
  · exact up

theorem le_roundHalfEven {d bound : Int} (positive : 0 < unit) (above : bound * unit ≤ d) :
    bound ≤ roundHalfEven unit d := by
  have floor : bound ≤ d / unit := (Int.le_ediv_iff_mul_le positive).mpr above
  unfold roundHalfEven
  repeat' split
  all_goals omega

end FixedPoint
