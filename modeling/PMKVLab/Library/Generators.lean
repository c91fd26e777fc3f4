import Mathlib.Data.Int.CardIntervalMod
import Mathlib.Data.Nat.Count
import Mathlib.FieldTheory.Finite.Basic
import Mathlib.GroupTheory.OrderOfElement

/-! Multiplicative generators modulo a prime. When the multiplier is a primitive root, every
start other than zero runs through all residues but zero before it returns.
-/

namespace PMKVLab.Library

/-- One step of the generator with the given multiplier and modulus. -/
def multiplyMod (multiplier modulus value : Nat) : Nat := multiplier * value % modulus

section Iterates

variable {multiplier modulus start : Nat}

/-- The iterates are powers of the multiplier, by induction on the steps. -/
theorem cast_iterate_multiplyMod (steps : Nat)
    : (((multiplyMod multiplier modulus)^[steps] start : Nat) : ZMod modulus)
      = (multiplier : ZMod modulus) ^ steps * (start : ZMod modulus) := by
  induction steps with
  | zero => simp
  | succ steps ih =>
      rw [Function.iterate_succ_apply', multiplyMod, ZMod.natCast_mod, Nat.cast_mul, ih,
        pow_succ']
      ring

/-- Every iterate is reduced, if the start is. -/
theorem iterate_multiplyMod_lt (reduced : start < modulus) (steps : Nat)
    : (multiplyMod multiplier modulus)^[steps] start < modulus := by
  cases steps with
  | zero => exact reduced
  | succ steps =>
      rw [Function.iterate_succ_apply']
      exact Nat.mod_lt _ (by omega)

/-- Reduced numbers are their residues. -/
theorem eq_of_cast_eq {left right : Nat} (leftReduced : left < modulus)
    (rightReduced : right < modulus) (same : (left : ZMod modulus) = right)
    : left = right := by
  have congruent := (ZMod.natCast_eq_natCast_iff' left right modulus).mp same
  rwa [Nat.mod_eq_of_lt leftReduced, Nat.mod_eq_of_lt rightReduced] at congruent

end Iterates

section PrimitiveRoots

variable {multiplier modulus start : Nat} (prime : modulus.Prime)
  (primitive : orderOf (multiplier : ZMod modulus) = modulus - 1)
  (positive : 0 < start) (reduced : start < modulus)

include primitive reduced in
/-- After a whole period the generator is back at its start. -/
theorem iterate_multiplyMod_period
    : (multiplyMod multiplier modulus)^[modulus - 1] start = start := by
  apply eq_of_cast_eq (iterate_multiplyMod_lt reduced _) reduced
  rw [cast_iterate_multiplyMod, ← primitive, pow_orderOf_eq_one, one_mul]

include positive reduced in
/-- A start other than zero is invertible. -/
theorem cast_start_ne_zero : (start : ZMod modulus) ≠ 0 := by
  intro zero
  have divides := (ZMod.natCast_eq_zero_iff start modulus).mp zero
  exact absurd (Nat.le_of_dvd positive divides) (by omega)

include prime primitive positive reduced in
/-- The iterates of one period are different: the start cancels, and powers below the order
differ.
-/
theorem iterate_multiplyMod_injOn
    : Set.InjOn (fun steps => (multiplyMod multiplier modulus)^[steps] start)
      (Finset.range (modulus - 1)) := by
  have : Fact modulus.Prime := ⟨prime⟩
  intro left leftLess right rightLess same
  have residues := congrArg (fun value : Nat => (value : ZMod modulus)) same
  simp only [cast_iterate_multiplyMod] at residues
  have powers := mul_right_cancel₀ (cast_start_ne_zero positive reduced) residues
  apply pow_injOn_Iio_orderOf _ _ powers
  · simpa [primitive] using leftLess
  · simpa [primitive] using rightLess

include prime primitive positive reduced in
/-- No iterate is zero. -/
theorem iterate_multiplyMod_pos (steps : Nat)
    : 0 < (multiplyMod multiplier modulus)^[steps] start := by
  have : Fact modulus.Prime := ⟨prime⟩
  have unit : (multiplier : ZMod modulus) ≠ 0 := by
    intro zero
    have two := prime.two_le
    rw [zero, orderOf_eq_zero_iff'.mpr] at primitive
    · omega
    · intro n some
      simp [zero_pow (by omega : n ≠ 0)]
  rw [Nat.pos_iff_ne_zero]
  intro zero
  have residue := @cast_iterate_multiplyMod multiplier modulus start steps
  rw [zero, Nat.cast_zero] at residue
  exact mul_ne_zero (pow_ne_zero steps unit) (cast_start_ne_zero positive reduced)
    residue.symm

include prime primitive positive reduced in
/-- One period visits every residue but zero: as many different iterates as residues. -/
theorem image_iterate_multiplyMod
    : (Finset.range (modulus - 1)).image
        (fun steps => (multiplyMod multiplier modulus)^[steps] start)
      = Finset.Ico 1 modulus := by
  apply Finset.eq_of_subset_of_card_le
  · intro value member
    obtain ⟨steps, -, rfl⟩ := Finset.mem_image.mp member
    have some := iterate_multiplyMod_pos prime primitive positive reduced steps
    have less := @iterate_multiplyMod_lt multiplier modulus start reduced steps
    exact Finset.mem_Ico.mpr ⟨some, less⟩
  · rw [Finset.card_image_of_injOn
      (iterate_multiplyMod_injOn prime primitive positive reduced)]
    simp

include prime primitive positive reduced in
/-- Over one period a property holds as often as it does among the residues but zero. -/
theorem count_iterate_multiplyMod (P : Nat → Prop) [DecidablePred P]
    : (modulus - 1).count (fun steps => P ((multiplyMod multiplier modulus)^[steps] start))
      = ((Finset.Ico 1 modulus).filter P).card := by
  rw [Nat.count_eq_card_filter_range,
    ← image_iterate_multiplyMod prime primitive positive reduced, Finset.filter_image,
    Finset.card_image_of_injOn]
  exact (iterate_multiplyMod_injOn prime primitive positive reduced).mono
    (Finset.coe_subset.mpr (Finset.filter_subset _ _))

end PrimitiveRoots

end PMKVLab.Library
