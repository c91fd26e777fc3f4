import Mathlib.Data.Nat.Digits.Lemmas
import PMKVLab.Store.TableEngine
import PMKVLab.Store.Wrapper

/-! The consistency check of `recovery_test.cc`: it compares the number of entries with
the number of expected bindings it can read back.
-/

namespace PMKVLab.Recovery

open PMKVLab.Library
open PMKVLab.Store

-----------------------------------------------------------------------------------------
-- Decimal keys
-----------------------------------------------------------------------------------------

/-- `std::to_string` of a nonnegative integer, as ASCII bytes. -/
def toDecimal (n : Nat) : Bytes :=
  if n = 0 then [48] else (Nat.digits 10 n).reverse.map (fun digit => UInt8.ofNat (48 + digit))

/-- The value every workload stores under the key of `i`: its decimal text and `!`. -/
def expectedValue (i : Nat) : Bytes := toDecimal i ++ [33]

/-- Decimal texts of positive numbers are distinct, since their digit lists are. -/
theorem toDecimal_injective {left right : Nat} (leftPos : 0 < left) (rightPos : 0 < right)
    (same : toDecimal left = toDecimal right)
    : left = right := by
  simp only [toDecimal, Nat.ne_of_gt leftPos, Nat.ne_of_gt rightPos, if_false] at same
  have ascii : ∀ a ∈ Nat.digits 10 left, ∀ b ∈ Nat.digits 10 right,
      UInt8.ofNat (48 + a) = UInt8.ofNat (48 + b) → a = b := by
    intro a aDigit b bDigit equal
    have aSmall := Nat.digits_lt_base (by decide : 1 < 10) aDigit
    have bSmall := Nat.digits_lt_base (by decide : 1 < 10) bDigit
    have bytes := congrArg UInt8.toNat equal
    simp only [UInt8.toNat_ofNat'] at bytes
    omega
  rw [List.map_reverse, List.map_reverse, List.reverse_inj] at same
  have digits : Nat.digits 10 left = Nat.digits 10 right := by
    generalize Nat.digits 10 left = first at same ascii
    generalize Nat.digits 10 right = second at same ascii
    induction first generalizing second with
    | nil => simpa using same.symm
    | cons a rest ih =>
        cases second with
        | nil => simp at same
        | cons b more =>
            simp only [List.map_cons, List.cons.injEq] at same
            rw [ascii a (by simp) b (by simp) same.1,
              ih more same.2 (fun c cMem d dMem => ascii c (by simp [cMem]) d (by simp [dMem]))]
  exact Nat.digits_inj_iff.mp digits

/-- The keys `1` to `NUM_OP` are pairwise distinct. -/
theorem decimalKeys_nodup (numOp : Nat) : ((List.range' 1 numOp).map toDecimal).Nodup := by
  refine List.Nodup.map_on ?_ List.nodup_range'
  intro left leftMem right rightMem same
  simp only [List.mem_range'_1] at leftMem rightMem
  exact toDecimal_injective (by omega) (by omega) same

/-- The decimal text of a `size_t` has at most twenty digits. -/
theorem toDecimal_length_le {n : Nat} (bound : n < 2 ^ 64) : (toDecimal n).length ≤ 20 := by
  have digits : (Nat.digits 10 n).length ≤ 20 :=
    (Nat.digits_length_le_iff (by decide) n).mpr (by omega)
  unfold toDecimal
  split
  · simp
  · simpa using digits

theorem expectedValue_short {i : Nat} (bound : i < 2 ^ 64)
    : (expectedValue i).length < maxValLen := by
  have digits := toDecimal_length_le bound
  simp only [expectedValue, maxValLen, List.length_append, List.length_cons, List.length_nil]
  omega

-----------------------------------------------------------------------------------------
-- The check
-----------------------------------------------------------------------------------------

/-- `size_t` arithmetic. -/
def sizeMod : Nat := 2 ^ 64

section Check

variable {E : Engine}

/-- The counting loop of `SanityCheck` with its `size_t` counters; `none` when `fuel`
iterations do not end it.
-/
def sanityLoop (numOp : Nat) (wrapper : PMKVWrapper E) (state : E.State)
    : Nat → Nat → Nat → Option Nat
  | 0, _, _ => none
  | fuel + 1, i, cnt =>
      if i ≤ numOp then
        let (s, value) := wrapper.get (toDecimal i) [] state
        let cnt := if s = .ok ∧ value = expectedValue i then (cnt + 1) % sizeMod else cnt
        sanityLoop numOp wrapper state fuel ((i + 1) % sizeMod) cnt
      else some cnt

/-- `SanityCheck`: whether its two assertions hold, when the loop ends within `fuel`
iterations.
-/
def sanityCheck (numOp : Nat) (wrapper : PMKVWrapper E) (state : E.State) (fuel : Nat)
    : Option Bool :=
  match Harness.tests.countAll wrapper (sizeMod - 1) state with
  | (.ok .ok, cntAll) =>
      (sanityLoop numOp wrapper state fuel 1 0).map (fun cnt => cntAll == cnt)
  | _ => some false

/-- The check ends and both assertions hold. -/
def SanityPasses (numOp : Nat) (wrapper : PMKVWrapper E) (state : E.State) : Prop :=
  ∃ fuel, sanityCheck numOp wrapper state fuel = some true

/-- The recovered map contains only bindings the workloads write. -/
def OnlyExpected (numOp : Nat) (contents : Contents) : Prop :=
  SubmapOf contents (List.range' 1 numOp) toDecimal expectedValue

end Check

section Live

variable {E : Engine} {V : E.View} {state : E.State} {db : E.Db} {path : String}
  {contents : Contents}

/-- One iteration counts `i` exactly when the map binds it as expected: expected values are
short enough to be read back.
-/
theorem get_expected_iff (laws : E.CmapLaws V) (live : V.Live state db path contents)
    {i : Nat} (bound : i < 2 ^ 64)
    : (((PMKVWrapper.mk (some db)).get (toDecimal i) [] state).1 = .ok
        ∧ ((PMKVWrapper.mk (some db)).get (toDecimal i) [] state).2 = expectedValue i)
      ↔ contents.lookup (toDecimal i) = some (expectedValue i) := by
  rw [PMKVWrapper.get_of_live laws live]
  cases found : contents.lookup (toDecimal i) with
  | none => simp
  | some stored =>
      cases fits : V.fits stored.length maxValLen with
      | true => simp [fits]
      | false =>
          simp only [fits, Bool.false_eq_true, if_false, reduceCtorEq, false_and, false_iff,
            Option.some.injEq]
          rintro rfl
          simp [laws.fits_of_lt (expectedValue_short bound)] at fits

/-- Below `SIZE_MAX` the counting loop ends, and its counter has gone up by the number of
expected bindings from `i` on. Witness: induction on the fuel; neither counter wraps.
-/
theorem sanityLoop_eq (laws : E.CmapLaws V) (live : V.Live state db path contents)
    {numOp : Nat} (bound : numOp + 1 < sizeMod) (fuel i cnt : Nat) (started : i ≤ numOp + 1)
    (counted : cnt < i)
    : sanityLoop numOp (PMKVWrapper.mk (some db)) state fuel i cnt
      = if numOp + 1 - i < fuel
        then some (cnt + agreements contents (List.range' i (numOp + 1 - i)) toDecimal
          expectedValue)
        else none := by
  induction fuel generalizing i cnt with
  | zero => simp [sanityLoop]
  | succ fuel ih =>
      by_cases more : i ≤ numOp
      · have size : numOp + 1 - i = (numOp + 1 - (i + 1)) + 1 := by omega
        have counter : (i + 1) % sizeMod = i + 1 := Nat.mod_eq_of_lt (by omega)
        have fits : (cnt + 1) % sizeMod = cnt + 1 := Nat.mod_eq_of_lt (by omega)
        have agree := get_expected_iff laws live (i := i)
          (by simp only [sizeMod] at bound; omega)
        rw [sanityLoop, if_pos more, counter, fits]
        rw [size, List.range'_succ, agreements, List.countP_cons]
        by_cases expected : contents.lookup (toDecimal i) = some (expectedValue i)
        · simp only [agree.mpr expected, expected, and_self, if_true]
          rw [ih (i + 1) (cnt + 1) (by omega) (by omega)]
          simp only [agreements, Nat.add_lt_add_iff_right, decide_true, if_true]
          congr 2
          omega
        · have skipped := mt agree.mp expected
          simp only [skipped, expected, if_false]
          rw [ih (i + 1) cnt (by omega) (by omega)]
          simp [agreements]
      · have done : numOp + 1 - i = 0 := by omega
        simp [sanityLoop, more, done, agreements]

/-- The check passes exactly on sub-maps of the expected map, for every `NUM_OP` whose loop
can end. Witness: the loop counts agreements, and equal counts force inclusion.
-/
theorem sanityPasses_iff (laws : E.CmapLaws V) (live : V.Live state db path contents)
    {numOp : Nat} (bound : numOp + 1 < sizeMod)
    : SanityPasses numOp (PMKVWrapper.mk (some db)) state
      ↔ OnlyExpected numOp contents := by
  have check : ∀ fuel, sanityCheck numOp (PMKVWrapper.mk (some db)) state fuel
      = if numOp < fuel
        then some (contents.keys.card
          == agreements contents (List.range' 1 numOp) toDecimal expectedValue)
        else none := by
    intro fuel
    rw [sanityCheck, Harness.countAll_of_live laws live]
    simp only [sanityLoop_eq laws live bound fuel 1 0 (by omega) (by omega),
      Nat.add_sub_cancel, Nat.zero_add]
    split
    · rfl
    · rfl
  rw [OnlyExpected, submapOf_iff_card contents (decimalKeys_nodup numOp)]
  constructor
  · rintro ⟨fuel, passed⟩
    rw [check] at passed
    split at passed
    · simpa using passed
    · cases passed
  · intro equal
    refine ⟨numOp + 1, ?_⟩
    rw [check, if_pos (by omega), equal]
    simp

/-- With `NUM_OP` equal to `SIZE_MAX` the loop condition never fails, so the check never
ends. Witness: induction on the fuel, every `size_t` being at most `SIZE_MAX`.
-/
theorem sanityLoop_maximal (wrapper : PMKVWrapper E) (state : E.State) (fuel i cnt : Nat)
    (small : i < sizeMod)
    : sanityLoop (sizeMod - 1) wrapper state fuel i cnt = none := by
  induction fuel generalizing i cnt with
  | zero => rfl
  | succ fuel ih =>
      rw [sanityLoop, if_pos (by omega)]
      exact ih _ _ (Nat.mod_lt _ (by decide))

end Live

end PMKVLab.Recovery
