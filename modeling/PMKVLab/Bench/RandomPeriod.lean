import Mathlib.NumberTheory.LucasPrimality
import Mathlib.Tactic.NormNum.Prime
import Mathlib.Tactic.ReduceModChar
import PMKVLab.Bench.RandomKeys
import PMKVLab.Library.Generators

/-! The period of `leveldb::Random`. Its modulus is prime and its multiplier a primitive
root, so that every seed runs through all numbers from 1 to 2^31 - 2, and a thread that
draws for a whole period draws every key almost equally often.
-/

namespace PMKVLab.Bench

open PMKVLab.Library PMKVLab.Store

-----------------------------------------------------------------------------------------
-- The multiplier is a primitive root
-----------------------------------------------------------------------------------------

namespace Random

/-- The `A` of `Next`. -/
def multiplier : Nat := 16807

/-- The prime factors of the number of residues but zero. -/
theorem prime_factor_cases {factor : Nat} (prime : factor.Prime)
    (divides : factor ∣ modulus - 1)
    : factor ∈ [2, 3, 7, 11, 31, 151, 331] := by
  have product : modulus - 1 = [2, 3, 3, 7, 11, 31, 151, 331].prod := by
    norm_num [modulus]
  rw [product, Prime.dvd_prod_iff prime.prime] at divides
  obtain ⟨other, member, divides⟩ := divides
  have primes : ∀ other ∈ [2, 3, 3, 7, 11, 31, 151, 331], other.Prime := by
    norm_num
  rw [(Nat.prime_dvd_prime_iff_eq prime (primes other member)).mp divides]
  revert member
  simp

theorem multiplier_pow : (multiplier : ZMod modulus) ^ (modulus - 1) = 1 := by
  unfold multiplier modulus
  norm_num
  reduce_mod_char

/-- No smaller power with a prime quotient is one. -/
theorem multiplier_pow_div_ne_one {factor : Nat} (prime : factor.Prime)
    (divides : factor ∣ modulus - 1)
    : (multiplier : ZMod modulus) ^ ((modulus - 1) / factor) ≠ 1 := by
  have member := prime_factor_cases prime divides
  unfold multiplier modulus
  simp only [List.mem_cons, List.not_mem_nil, or_false] at member
  rcases member with rfl | rfl | rfl | rfl | rfl | rfl | rfl
  all_goals
    norm_num
    reduce_mod_char
    decide

theorem modulus_prime : modulus.Prime :=
  lucas_primality modulus multiplier multiplier_pow
    (fun _ prime divides => multiplier_pow_div_ne_one prime divides)

theorem orderOf_multiplier : orderOf (multiplier : ZMod modulus) = modulus - 1 :=
  orderOf_eq_of_pow_and_pow_div_prime (by decide) multiplier_pow
    (fun _ prime divides => multiplier_pow_div_ne_one prime divides)

-----------------------------------------------------------------------------------------
-- The shifts of `Next` multiply
-----------------------------------------------------------------------------------------

/-- The seeds that are neither of the two fixed points. -/
def Proper (random : Random) : Prop := 0 < random.seed ∧ random.seed < modulus

/-- The constructor avoids the fixed points. -/
theorem make_proper (s : Nat) : (make s).Proper := by
  have masked := Nat.mod_lt s (by decide : 0 < 2 ^ 31)
  simp only [Proper, make]
  split
  · exact ⟨by decide, by decide⟩
  · next bad =>
      simp only [modulus] at bad ⊢
      omega

/-- The product is no multiple of the modulus, since neither factor is. -/
theorem product_mod_ne_zero {seed : Nat} (positive : 0 < seed) (reduced : seed < modulus)
    : multiplier * seed % modulus ≠ 0 := by
  intro zero
  rcases modulus_prime.dvd_mul.mp (Nat.dvd_of_mod_eq_zero zero) with divides | divides
  · exact absurd divides (by decide)
  · exact absurd (Nat.le_of_dvd positive divides) (by omega)

/-- Adding the high bits of the product to its low bits reduces it, and one subtraction at
most is left: the sum is never the modulus itself.
-/
theorem next_seed {random : Random} (proper : random.Proper)
    : random.next = (multiplyMod multiplier modulus random.seed,
        ⟨multiplyMod multiplier modulus random.seed⟩) := by
  obtain ⟨positive, reduced⟩ := proper
  let high := random.seed * 16807 / 2 ^ 31
  let low := random.seed * 16807 % 2 ^ 31
  have product : multiplier * random.seed = (high + low) + modulus * high := by
    simp only [high, low, multiplier, modulus]
    omega
  have small : high ≤ 16806 ∧ low ≤ modulus := by
    simp only [high, low, modulus] at reduced ⊢
    omega
  have folds : multiplyMod multiplier modulus random.seed = (high + low) % modulus := by
    rw [multiplyMod, product, Nat.add_mul_mod_self_left]
  have never := product_mod_ne_zero positive reduced
  have narrow : (high + low) % 2 ^ 32 = high + low := by
    simp only [modulus] at small
    omega
  have seed : (if (high + low) % 2 ^ 32 > modulus then (high + low) % 2 ^ 32 - modulus
      else (high + low) % 2 ^ 32)
      = multiplyMod multiplier modulus random.seed := by
    rw [narrow]
    rw [multiplyMod] at folds
    rw [folds] at never
    rw [multiplyMod, folds]
    by_cases large : high + low > modulus
    · rw [if_pos large, Nat.mod_eq_sub_mod (by omega), Nat.mod_eq_of_lt]
      simp only [modulus] at small ⊢
      omega
    · rw [if_neg large, Nat.mod_eq_of_lt]
      have other : high + low ≠ modulus := by
        intro same
        exact never (by rw [same, Nat.mod_self])
      omega
  simp only [high, low] at seed
  simp only [next, seed]

/-- The generator after the given number of draws. -/
def after (random : Random) (draws : Nat) : Random :=
  (fun random : Random => random.next.2)^[draws] random

/-- The seeds of the draws are the iterates of the multiplication, by induction on the
draws. Every one of them is proper.
-/
theorem after_seed {random : Random} (proper : random.Proper) (draws : Nat)
    : random.after draws = ⟨(multiplyMod multiplier modulus)^[draws] random.seed⟩
      ∧ (random.after draws).Proper := by
  induction draws with
  | zero => exact ⟨rfl, proper⟩
  | succ draws ih =>
      obtain ⟨seed, kept⟩ := ih
      have stepped : random.after (draws + 1)
          = ⟨(multiplyMod multiplier modulus)^[draws + 1] random.seed⟩ := by
        simp only [after, Function.iterate_succ_apply'] at seed kept ⊢
        rw [next_seed kept, seed]
      refine ⟨stepped, ?_⟩
      rw [stepped]
      exact ⟨iterate_multiplyMod_pos modulus_prime orderOf_multiplier proper.1 proper.2 _,
        iterate_multiplyMod_lt proper.2 _⟩

/-- Every generator cycles through all numbers from 1 to 2^31 - 2: a period later it has
returned, and within a period it takes each of these seeds once.
-/
theorem after_cycles (s : Nat)
    : (∀ draws, (make s).after (draws + (modulus - 1)) = (make s).after draws)
      ∧ ∀ seed, 0 < seed → seed < modulus →
        ∃! draws, draws < modulus - 1 ∧ ((make s).after draws).seed = seed := by
  have proper := make_proper s
  have seeds draws := (after_seed proper draws).1
  constructor
  · intro draws
    rw [seeds, seeds, Function.iterate_add_apply,
      iterate_multiplyMod_period orderOf_multiplier proper.2]
  · intro seed positive less
    have member : seed ∈ Finset.Ico 1 modulus := Finset.mem_Ico.mpr ⟨positive, less⟩
    rw [← image_iterate_multiplyMod modulus_prime orderOf_multiplier proper.1 proper.2]
      at member
    obtain ⟨draws, within, reached⟩ := Finset.mem_image.mp member
    refine ⟨draws, ⟨Finset.mem_range.mp within, ?_⟩, ?_⟩
    · rw [seeds]
      exact reached
    · rintro other ⟨otherWithin, otherReached⟩
      rw [seeds] at otherReached
      exact iterate_multiplyMod_injOn modulus_prime orderOf_multiplier proper.1 proper.2
        (Finset.mem_coe.mpr (Finset.mem_range.mpr otherWithin))
        (Finset.mem_coe.mpr within) (otherReached.trans reached.symm)

end Random

-----------------------------------------------------------------------------------------
-- The keys of a period
-----------------------------------------------------------------------------------------

/-- The generator of a thread is the one of its seed after its draws. -/
theorem generator_eq_after (tid j : Nat)
    : generator tid j = (Random.make (1000 + tid)).after j := by
  induction j with
  | zero => rfl
  | succ j ih => rw [generator, ih, Random.after, Random.after, Function.iterate_succ_apply']

/-- The value of draw `j` is an iterate of the multiplication, from the seed after the first
draw on.
-/
theorem generator_next (tid j : Nat)
    : (generator tid j).next.1
      = (multiplyMod Random.multiplier Random.modulus)^[j]
          ((Random.make (1000 + tid)).after 1).seed := by
  have proper := Random.make_proper (1000 + tid)
  obtain ⟨seed, kept⟩ := Random.after_seed proper j
  obtain ⟨first, -⟩ := Random.after_seed proper 1
  have value : (generator tid j).next.1
      = (multiplyMod Random.multiplier Random.modulus)^[j + 1]
          (Random.make (1000 + tid)).seed := by
    rw [generator_eq_after, Random.next_seed kept, seed, Function.iterate_succ_apply']
  rw [value, first, Function.iterate_succ_apply]
  rfl

/-- Keys are the same exactly when their indices are, as long as the indices fit into the
bytes of a key.
-/
theorem drawnKey_eq_iff {flags : Flags} (size : 0 ≤ flags.keySize) (positive : 0 < flags.num)
    (bounded : flags.num < 2 ^ 31)
    (distinct : flags.num ≤ 256 ^ indexBytes flags.keySize) (tid j : Nat) {k : Nat}
    (less : k < flags.num.toNat)
    : drawnKey flags tid j = sequentialKey flags.keySize k
      ↔ (generator tid j).next.1 % flags.num.toNat = k := by
  have length : ∀ draws, (drawnBuffer flags tid draws).length = flags.keySize.toNat := by
    intro draws
    induction draws with
    | zero => simp [drawnBuffer]
    | succ draws ih => exact generateKeyFromInt_length size _ ih
  have num : toUInt32 flags.num = flags.num.toNat := by
    rw [toUInt32]
    omega
  have index := Nat.mod_lt (generator tid j).next.1 (by omega : 0 < flags.num.toNat)
  have few : flags.num.toNat ≤ 256 ^ indexBytes flags.keySize := by
    zify
    omega
  rw [drawnKey, drawnBuffer, sequentialKey, num, toUInt64_toInt32 (by omega),
    generateKeyFromInt_eq_iff size _ _ (length j) List.length_replicate,
    Nat.mod_eq_of_lt (Nat.lt_of_lt_of_le index few),
    Nat.mod_eq_of_lt (Nat.lt_of_lt_of_le less few)]

/-- How often one of `n` remainders occurs among the numbers from 1 to `bound - 1`. -/
theorem card_remainders {n bound k : Nat} (positive : 0 < bound) (less : k < n)
    : ((Finset.Ico 1 bound).filter (fun value => value % n = k)).card
      = bound / n + (if k < bound % n then 1 else 0) - (if k = 0 then 1 else 0) := by
  have whole := Nat.count_modEq_card bound (by omega : 0 < n) k
  have remainder value : value ≡ k [MOD n] ↔ value % n = k := by
    rw [Nat.ModEq, Nat.mod_eq_of_lt less]
  have range : Finset.range bound = insert 0 (Finset.Ico 1 bound) := by
    rw [Finset.range_eq_Ico]
    exact (Finset.insert_Ico_add_one_left_eq_Ico positive).symm
  rw [Nat.count_eq_card_filter_range, Finset.filter_congr (fun value _ => remainder value),
    Nat.mod_eq_of_lt less, range, Finset.filter_insert] at whole
  rw [← whole, Nat.zero_mod]
  by_cases zero : k = 0
  · simp [zero]
  · simp [zero, Ne.symm zero]

/-- In a whole period of draws a thread draws every key almost equally often. The number of
a key's draws is the number of seeds that leave its index as the remainder, and the seed 0
is never drawn.
-/
theorem drawnKey_count {flags : Flags} (size : 0 ≤ flags.keySize) (positive : 0 < flags.num)
    (bounded : flags.num < 2 ^ 31)
    (distinct : flags.num ≤ 256 ^ indexBytes flags.keySize) (tid : Nat) {k : Nat}
    (less : k < flags.num.toNat)
    : (Random.modulus - 1).count
        (fun j => drawnKey flags tid j = sequentialKey flags.keySize k)
      = Random.modulus / flags.num.toNat
        + (if k < Random.modulus % flags.num.toNat then 1 else 0)
        - (if k = 0 then 1 else 0) := by
  obtain ⟨-, first⟩ := Random.after_seed (Random.make_proper (1000 + tid)) 1
  simp only [drawnKey_eq_iff size positive bounded distinct tid _ less, generator_next]
  rw [count_iterate_multiplyMod Random.modulus_prime Random.orderOf_multiplier first.1 first.2
    (fun value => value % flags.num.toNat = k), card_remainders (by decide) less]

/-- Witness: of five keys the second is drawn once more than the first. -/
theorem drawnKey_count_five
    : let flags : Flags := ⟨5, -1, 1, 16, 100⟩
      (Random.modulus - 1).count
          (fun j => drawnKey flags 0 j = sequentialKey flags.keySize 0) = 429496729
      ∧ (Random.modulus - 1).count
          (fun j => drawnKey flags 0 j = sequentialKey flags.keySize 1) = 429496730 := by
  intro flags
  have counts (k : Nat) (less : k < flags.num.toNat) :=
    @drawnKey_count flags (by decide) (by decide) (by decide) (by decide) 0 k less
  exact ⟨(counts 0 (by decide)).trans (by decide), (counts 1 (by decide)).trans (by decide)⟩

end PMKVLab.Bench
