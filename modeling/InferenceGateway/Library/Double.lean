import Mathlib.Data.Int.Log
import Mathlib.Data.Rat.Floor
import Mathlib.Tactic.Positivity

/-!
# Rounding rationals

A program that computes with floating-point numbers rounds after every operation, and a
database column of a fixed scale rounds what is written to it. `double` is the binary64
number nearest to a rational, `decimal` the decimal number of so many places.
-/
namespace InferenceGateway.Library

/-- The nearest integer, the even one of two. -/
def roundHalfEven (x : ℚ) : ℤ :=
  if 2 * (x - ⌊x⌋) < 1 ∨ 2 * (x - ⌊x⌋) = 1 ∧ ⌊x⌋ % 2 = 0 then ⌊x⌋ else ⌊x⌋ + 1

/-- The last place of a binary64 number of this magnitude. -/
def lastPlace (x : ℚ) : ℚ := 2 ^ max (Int.log 2 |x| - 52) (-1074)

/-- The nearest binary64 number, the even one of two. Numbers are not bounded above. -/
def double (x : ℚ) : ℚ := roundHalfEven (x / lastPlace x) * lastPlace x

/-- The nearest decimal number of this many places, the one farther from zero of two. -/
def decimal (places : ℕ) (x : ℚ) : ℚ :=
  (if x < 0 then -round (-(x * 10 ^ places)) else round (x * 10 ^ places) : ℤ) / 10 ^ places

/-- What is left of a number without its fraction. -/
def truncate (x : ℚ) : ℤ := x.num.tdiv x.den

example : double (1 / 10) = 3602879701896397 / 36028797018963968 := by decide +kernel
example : double (2 ^ 53 + 1) = 2 ^ 53 := by decide +kernel
example : double (double (1 / 10) + double (2 / 10)) ≠ double (3 / 10) := by decide +kernel
example : decimal 6 (-1 / 2000000) = -1 / 1000000 := by decide +kernel

/-- Decimal numbers of so many places are left as they are. -/
theorem decimal_intCast_div (places : ℕ) (n : ℤ) :
    decimal places (n / 10 ^ places) = n / 10 ^ places := by
  have hscaled : (n : ℚ) / 10 ^ places * 10 ^ places = n := div_mul_cancel₀ _ (by positivity)
  unfold decimal
  rw [hscaled, ← Int.cast_neg, round_intCast, round_intCast, neg_neg, ite_self]

theorem decimal_decimal (places : ℕ) (x : ℚ) :
    decimal places (decimal places x) = decimal places x := decimal_intCast_div places _

end InferenceGateway.Library
