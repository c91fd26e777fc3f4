import Mathlib.Algebra.Group.Nat.Defs
import Mathlib.Data.Nat.Log

/-! Rounding to the IEEE 754 binary64 format, for the nonnegative numbers that a conversion
from decimal text or a division of integers starts from. A double is known by its value.
-/

namespace PMKVLab.Library

/-- A quotient rounded to an integer, ties to even. -/
def roundHalfEven (numerator denominator : Nat) : Nat :=
  let quotient := numerator / denominator
  let twice := 2 * (numerator % denominator)
  if twice < denominator ∨ (twice = denominator ∧ quotient % 2 = 0) then quotient
  else quotient + 1

/-- The number of low bits of an integer that a significand of 53 bits drops. -/
def droppedBits (n : Nat) : Nat := Nat.log 2 n - 52

/-- The double closest to a natural number; `none` is infinity. -/
def nearestDouble (n : Nat) : Option Nat :=
  let rounded := roundHalfEven n (2 ^ droppedBits n) * 2 ^ droppedBits n
  if rounded < 2 ^ 1024 then some rounded else none

/-- The integer part of the double closest to a quotient of at least one; `none` when that
double is infinite.
-/
def truncatedQuotient (numerator denominator : Nat) : Option Nat :=
  let places := Nat.log 2 (numerator / denominator)
  let truncated :=
    if places ≤ 52 then
      roundHalfEven (numerator * 2 ^ (52 - places)) denominator / 2 ^ (52 - places)
    else roundHalfEven numerator (denominator * 2 ^ (places - 52)) * 2 ^ (places - 52)
  if truncated < 2 ^ 1024 then some truncated else none

theorem roundHalfEven_mul (quotient denominator : Nat) (positive : 0 < denominator)
    : roundHalfEven (quotient * denominator) denominator = quotient := by
  simp [roundHalfEven, Nat.mul_div_cancel _ positive, positive]

/-- Integers of at most 53 bits are doubles. -/
theorem nearestDouble_of_le {n : Nat} (small : n ≤ 2 ^ 53) : nearestDouble n = some n := by
  have unchanged : roundHalfEven n (2 ^ droppedBits n) * 2 ^ droppedBits n = n := by
    rcases Nat.lt_or_eq_of_le small with less | rfl
    · have none : droppedBits n = 0 := by
        have bits : Nat.log 2 n < 53 := by
          rcases Nat.eq_zero_or_pos n with rfl | positive
          · simp
          · exact Nat.log_lt_of_lt_pow (by omega) less
        rw [droppedBits]
        omega
      have whole := roundHalfEven_mul n 1 (by decide)
      rw [Nat.mul_one] at whole
      rw [none, Nat.pow_zero, Nat.mul_one, whole]
    · decide +kernel
  have finite : n < 2 ^ 1024 := Nat.lt_of_le_of_lt small (by decide +kernel)
  simp only [nearestDouble, unchanged, finite, if_true]

-- The first integer that is not a double is rounded down.
example : nearestDouble (2 ^ 53 + 1) = some (2 ^ 53) := by decide +kernel

end PMKVLab.Library
