import Mathlib.Algebra.Order.Field.Basic
import Mathlib.Data.Rat.Cast.Order
import Mathlib.Tactic.Linarith
import Mathlib.Tactic.Positivity

/-! Arithmetic that rounds every result: rounding is monotone and leaves the numbers of the
format alone, among them all integers of at most 53 bits and their quotients by powers of
two.
-/

namespace PMKVLab.Library

/-- A rounding of rational numbers to the finite numbers of a format. -/
structure Rounding where
  round : ℚ → ℚ
  monotone : Monotone round
  exact : ∀ m k : ℕ, m ≤ 2 ^ 53 → k ≤ 64 → round (m / 2 ^ k) = m / 2 ^ k

namespace Rounding

variable (rounding : Rounding)

/-- Exact arithmetic. -/
def exactly : Rounding where
  round := id
  monotone := monotone_id
  exact _ _ _ _ := rfl

theorem round_natCast {n : ℕ} (small : n ≤ 2 ^ 53) : rounding.round n = n := by
  have exact := rounding.exact n 0 small (by norm_num)
  simpa using exact

@[simp]
theorem round_zero : rounding.round 0 = 0 := by
  simpa using rounding.round_natCast (n := 0) (by norm_num)

theorem round_one : rounding.round 1 = 1 := by
  simpa using rounding.round_natCast (n := 1) (by norm_num)

theorem round_nonneg {x : ℚ} (nonneg : 0 ≤ x) : 0 ≤ rounding.round x := by
  have bound := rounding.monotone nonneg
  rwa [rounding.round_zero] at bound

/-- Rounding does not pass an integer of the format. -/
theorem round_le_natCast {x : ℚ} {n : ℕ} (small : n ≤ 2 ^ 53) (bound : x ≤ n)
    : rounding.round x ≤ n := by
  have rounded := rounding.monotone bound
  rwa [rounding.round_natCast small] at rounded

theorem natCast_le_round {x : ℚ} {n : ℕ} (small : n ≤ 2 ^ 53) (bound : n ≤ x)
    : n ≤ rounding.round x := by
  have rounded := rounding.monotone bound
  rwa [rounding.round_natCast small] at rounded

/-- Positive numbers that are not tiny stay positive. -/
theorem round_pos {x : ℚ} (bound : 1 / 2 ^ 64 ≤ x) : 0 < rounding.round x := by
  have exact := rounding.exact 1 64 (by norm_num) le_rfl
  have rounded := rounding.monotone bound
  rw [Nat.cast_one] at exact
  rw [exact] at rounded
  exact lt_of_lt_of_le (by positivity) rounded

end Rounding

end PMKVLab.Library
