import Mathlib.Data.List.Count
import Mathlib.Order.Bounds.Basic
import PMKVLab.Library.Rounding

/-! `Histogram`, which counts latencies in buckets. Every operation on its numbers rounds as
doubles do; the counts, the minimum and the maximum are exact all the same.
-/

namespace PMKVLab.Bench

open PMKVLab.Library

/-- `kNumBuckets`. -/
def numBuckets : Nat := 154

/-- `kBucketLimit` without its last entry. -/
def bucketLimits : List Nat :=
  [1, 2, 3, 4, 5, 6, 7, 8, 9, 10, 12, 14, 16, 18, 20, 25, 30, 35, 40, 45,
    50, 60, 70, 80, 90, 100, 120, 140, 160, 180, 200, 250, 300, 350, 400, 450,
    500, 600, 700, 800, 900, 1000, 1200, 1400, 1600, 1800, 2000, 2500, 3000,
    3500, 4000, 4500, 5000, 6000, 7000, 8000, 9000, 10000, 12000, 14000,
    16000, 18000, 20000, 25000, 30000, 35000, 40000, 45000, 50000, 60000,
    70000, 80000, 90000, 100000, 120000, 140000, 160000, 180000, 200000,
    250000, 300000, 350000, 400000, 450000, 500000, 600000, 700000, 800000,
    900000, 1000000, 1200000, 1400000, 1600000, 1800000, 2000000, 2500000,
    3000000, 3500000, 4000000, 4500000, 5000000, 6000000, 7000000, 8000000,
    9000000, 10000000, 12000000, 14000000, 16000000, 18000000, 20000000,
    25000000, 30000000, 35000000, 40000000, 45000000, 50000000, 60000000,
    70000000, 80000000, 90000000, 100000000, 120000000, 140000000, 160000000,
    180000000, 200000000, 250000000, 300000000, 350000000, 400000000,
    450000000, 500000000, 600000000, 700000000, 800000000, 900000000,
    1000000000, 1200000000, 1400000000, 1600000000, 1800000000, 2000000000,
    2500000000, 3000000000, 3500000000, 4000000000, 4500000000,
    5000000000, 6000000000, 7000000000, 8000000000, 9000000000]

structure Histogram where
  min : ℚ
  max : ℚ
  num : ℚ
  sum : ℚ
  sumSquares : ℚ
  buckets : Nat → ℚ

namespace Histogram

section Operations

variable (rounding : Rounding)

/-- `kBucketLimit[b]`; the last one is the double of 1e200. -/
def limit (b : Nat) : ℚ := (bucketLimits[b]?.map Nat.cast).getD (rounding.round (10 ^ 200))

def clear : Histogram where
  min := limit rounding (numBuckets - 1)
  max := 0
  num := 0
  sum := 0
  sumSquares := 0
  buckets := fun _ => 0

/-- The search of `Add` from bucket `b` on, with `left` buckets before the last one. -/
def search (value : ℚ) : (left b : Nat) → Nat
  | 0, b => b
  | left + 1, b => if limit rounding b ≤ value then search value left (b + 1) else b

/-- The bucket that counts a value. -/
def bucketOf (value : ℚ) : Nat := search rounding value (numBuckets - 1) 0

def add (h : Histogram) (value : ℚ) : Histogram where
  buckets :=
    let b := bucketOf rounding value
    Function.update h.buckets b (rounding.round (h.buckets b + 1))
  min := if h.min > value then value else h.min
  max := if h.max < value then value else h.max
  num := rounding.round (h.num + 1)
  sum := rounding.round (h.sum + value)
  sumSquares := rounding.round (h.sumSquares + rounding.round (value * value))

def merge (h other : Histogram) : Histogram where
  min := if other.min < h.min then other.min else h.min
  max := if other.max > h.max then other.max else h.max
  num := rounding.round (h.num + other.num)
  sum := rounding.round (h.sum + other.sum)
  sumSquares := rounding.round (h.sumSquares + other.sumSquares)
  buckets := fun b => rounding.round (h.buckets b + other.buckets b)

/-- The lower end of a bucket. -/
def leftPoint (b : Nat) : ℚ := if b = 0 then 0 else limit rounding (b - 1)

/-- The linear scaling within bucket `b`. -/
def interpolate (b : Nat) (above width : ℚ) : ℚ :=
  let pos := rounding.round (above / width)
  rounding.round (leftPoint rounding b
    + rounding.round (rounding.round (limit rounding b - leftPoint rounding b) * pos))

/-- The two corrections of `Percentile` at its end. -/
def clamp (h : Histogram) (r : ℚ) : ℚ :=
  let r := if r < h.min then h.min else r
  if r > h.max then h.max else r

/-- What `Percentile` returns from bucket `b`, whose count takes the sum to the threshold.
There is no number when it divides zero by zero, as for an empty histogram; any other
division by zero gives a number below all others.
-/
def scale (h : Histogram) (threshold sum : ℚ) (b : Nat) : Option ℚ :=
  let leftSum := rounding.round (sum - h.buckets b)
  let above := rounding.round (threshold - leftSum)
  let width := rounding.round (sum - leftSum)
  if width = 0 then if above = 0 then none else some (clamp h h.min)
  else some (clamp h (interpolate rounding b above width))

/-- The loop of `Percentile` from bucket `b` on, with `left` buckets to go. -/
def percentileLoop (h : Histogram) (threshold : ℚ) : (left b : Nat) → (sum : ℚ) → Option ℚ
  | 0, _, _ => some h.max
  | left + 1, b, sum =>
      let sum := rounding.round (sum + h.buckets b)
      if sum ≥ threshold then scale rounding h threshold sum b
      else percentileLoop h threshold left (b + 1) sum

/-- `num_ * (p / 100.0)`. -/
def threshold (h : Histogram) (p : ℚ) : ℚ :=
  rounding.round (h.num * rounding.round (p / 100))

def percentile (h : Histogram) (p : ℚ) : Option ℚ :=
  percentileLoop rounding h (threshold rounding h p) numBuckets 0 0

def median (h : Histogram) : Option ℚ := percentile rounding h 50

/-- The histogram of values that are added one after another. -/
def ofValues (values : List ℚ) : Histogram :=
  values.foldl (add rounding) (clear rounding)

end Operations

-----------------------------------------------------------------------------------------
-- Buckets
-----------------------------------------------------------------------------------------

/-- The limits increase. -/
theorem bucketLimits_increasing : bucketLimits.Pairwise (· < ·) := by decide +kernel

theorem bucketLimits_length : bucketLimits.length = numBuckets - 1 := by decide +kernel

theorem bucketLimits_small : ∀ n ∈ bucketLimits, n ≤ 2 ^ 53 := by decide +kernel

section Buckets

variable (rounding : Rounding)

/-- All limits but the last are integers of the format. -/
theorem limit_natCast {b : Nat} (inner : b < numBuckets - 1)
    : ∃ n ≤ 2 ^ 53, bucketLimits[b]? = some n ∧ limit rounding b = n := by
  have inside : b < bucketLimits.length := by
    rw [bucketLimits_length]
    exact inner
  have found : bucketLimits[b]? = some bucketLimits[b] := List.getElem?_eq_getElem inside
  refine ⟨bucketLimits[b], bucketLimits_small _ (List.getElem_mem inside), found, ?_⟩
  simp [limit, found]

theorem limit_lt {b c : Nat} (less : b < c) (inner : c < numBuckets - 1)
    : limit rounding b < limit rounding c := by
  obtain ⟨m, -, low, lowLimit⟩ := limit_natCast rounding (show b < numBuckets - 1 by omega)
  obtain ⟨n, -, high, highLimit⟩ := limit_natCast rounding inner
  obtain ⟨lowInside, lowValue⟩ := List.getElem?_eq_some_iff.mp low
  obtain ⟨highInside, highValue⟩ := List.getElem?_eq_some_iff.mp high
  have ordered := List.pairwise_iff_getElem.mp bucketLimits_increasing b c lowInside highInside
    less
  rw [lowLimit, highLimit, ← lowValue, ← highValue]
  exact_mod_cast ordered

/-- The search stops at the first limit above the value, or at the last bucket. By induction
on the buckets that are left.
-/
theorem search_spec (value : ℚ) (left b : Nat)
    : b ≤ search rounding value left b
      ∧ search rounding value left b ≤ b + left
      ∧ (∀ c, b ≤ c → c < search rounding value left b → limit rounding c ≤ value)
      ∧ (search rounding value left b < b + left
          → value < limit rounding (search rounding value left b)) := by
  induction left generalizing b with
  | zero =>
      refine ⟨le_rfl, le_rfl, ?_, ?_⟩
      · intro c low high
        exact absurd high (by simp [search]; omega)
      · intro less
        simp [search] at less
  | succ left ih =>
      unfold search
      split
      · next reached =>
          obtain ⟨low, high, passed, stops⟩ := ih (b + 1)
          refine ⟨by omega, by omega, ?_, ?_⟩
          · intro c bottom top
            rcases Nat.eq_or_lt_of_le bottom with rfl | more
            · exact reached
            · exact passed c more top
          · intro less
            exact stops (by omega)
      · next unreached =>
          refine ⟨le_rfl, by omega, ?_, fun _ => not_le.mp unreached⟩
          intro c bottom top
          omega

theorem bucketOf_lt (value : ℚ) : bucketOf rounding value < numBuckets := by
  have bound := (search_spec rounding value (numBuckets - 1) 0).2.1
  simp only [bucketOf, numBuckets] at bound ⊢
  omega

/-- A value is not below the limit before its bucket. -/
theorem limit_le_of_bucketOf {value : ℚ} {c : Nat} (before : c < bucketOf rounding value)
    : limit rounding c ≤ value :=
  (search_spec rounding value (numBuckets - 1) 0).2.2.1 c (Nat.zero_le c) before

/-- A value is below the limit of its bucket, unless that is the last one. -/
theorem lt_limit_of_bucketOf {value : ℚ} (inner : bucketOf rounding value < numBuckets - 1)
    : value < limit rounding (bucketOf rounding value) :=
  (search_spec rounding value (numBuckets - 1) 0).2.2.2 (by simpa [bucketOf] using inner)

theorem leftPoint_natCast {b : Nat} (inside : b < numBuckets)
    : ∃ n ≤ 2 ^ 53, leftPoint rounding b = (n : ℕ) := by
  unfold leftPoint
  split
  · exact ⟨0, by norm_num, by norm_num⟩
  · obtain ⟨n, small, -, value⟩ :=
      limit_natCast rounding (b := b - 1) (by omega)
    exact ⟨n, small, value⟩

/-- The last limit is above all others. -/
theorem limit_le_last {b : Nat} (inner : b < numBuckets - 1)
    : limit rounding b ≤ limit rounding (numBuckets - 1) := by
  obtain ⟨n, small, -, value⟩ := limit_natCast rounding inner
  have last : limit rounding (numBuckets - 1) = rounding.round (10 ^ 200) := by
    have none : bucketLimits[numBuckets - 1]? = none := by decide +kernel
    simp [limit, none]
  rw [value, last]
  apply rounding.natCast_le_round small
  calc (n : ℚ) ≤ ((2 ^ 53 : ℕ) : ℚ) := by exact_mod_cast small
    _ ≤ 10 ^ 200 := by norm_num

theorem limit_mono {b c : Nat} (less : b < c) (inside : c < numBuckets)
    : limit rounding b ≤ limit rounding c := by
  rcases Nat.lt_or_ge c (numBuckets - 1) with inner | last
  · exact (limit_lt rounding less inner).le
  · have same : c = numBuckets - 1 := by omega
    rw [same]
    exact limit_le_last rounding (by omega)

theorem leftPoint_le_limit {b : Nat} (inside : b < numBuckets)
    : leftPoint rounding b ≤ limit rounding b := by
  unfold leftPoint
  split
  · next zero =>
      obtain ⟨n, -, -, value⟩ := limit_natCast rounding (b := b) (by simp [zero, numBuckets])
      rw [value]
      positivity
  · exact limit_mono rounding (by omega) inside

/-- The position within a bucket is between zero and one. -/
theorem round_div_mem {above : ℚ} {width : ℕ} (nonneg : 0 ≤ above) (within : above ≤ width)
    : 0 ≤ rounding.round (above / width) ∧ rounding.round (above / width) ≤ 1 := by
  refine ⟨rounding.round_nonneg (by positivity), ?_⟩
  have quotient : above / width ≤ 1 := div_le_one_of_le₀ within (by positivity)
  simpa using rounding.round_le_natCast (n := 1) (by norm_num) (by simpa using quotient)

/-- Scaling stays above the lower end of the bucket. -/
theorem leftPoint_le_interpolate {b : Nat} (inside : b < numBuckets) {above : ℚ} {width : ℕ}
    (nonneg : 0 ≤ above) (within : above ≤ width)
    : leftPoint rounding b ≤ interpolate rounding b above width := by
  obtain ⟨n, small, value⟩ := leftPoint_natCast rounding inside
  have pos := (round_div_mem rounding nonneg within).1
  have size := rounding.round_nonneg (sub_nonneg.mpr (leftPoint_le_limit rounding inside))
  have scaled := rounding.round_nonneg (mul_nonneg size pos)
  unfold interpolate
  rw [value] at scaled ⊢
  apply rounding.natCast_le_round small
  simpa using scaled

/-- Scaling stays below the upper end of the bucket, except in the last one. -/
theorem interpolate_le_limit {b : Nat} (inner : b < numBuckets - 1) {above : ℚ} {width : ℕ}
    (nonneg : 0 ≤ above) (within : above ≤ width)
    : interpolate rounding b above width ≤ limit rounding b := by
  have inside : b < numBuckets := by omega
  obtain ⟨m, -, lower⟩ := leftPoint_natCast rounding inside
  obtain ⟨n, small, -, upper⟩ := limit_natCast rounding inner
  have ordered : m ≤ n := by
    have ends := leftPoint_le_limit rounding inside
    rw [lower, upper] at ends
    exact_mod_cast ends
  have size : rounding.round ((n : ℚ) - m) = ((n - m : ℕ) : ℚ) := by
    rw [← Nat.cast_sub ordered]
    exact rounding.round_natCast (by omega)
  have pos := (round_div_mem rounding nonneg within).2
  have scaled : rounding.round (((n - m : ℕ) : ℚ) * rounding.round (above / width))
      ≤ ((n - m : ℕ) : ℚ) :=
    rounding.round_le_natCast (by omega) (mul_le_of_le_one_right (by positivity) pos)
  rw [Nat.cast_sub ordered] at scaled
  simp only [interpolate, lower, upper, size]
  apply rounding.round_le_natCast small
  rw [Nat.cast_sub ordered]
  linarith

/-- Scaling is monotone. -/
theorem interpolate_mono {b : Nat} (inside : b < numBuckets) {above more : ℚ} {width : ℕ}
    (less : above ≤ more)
    : interpolate rounding b above width ≤ interpolate rounding b more width := by
  have size := rounding.round_nonneg (sub_nonneg.mpr (leftPoint_le_limit rounding inside))
  have pos : rounding.round (above / width) ≤ rounding.round (more / width) :=
    rounding.monotone (div_le_div_of_nonneg_right less (by positivity))
  apply rounding.monotone
  have scaled := rounding.monotone (mul_le_mul_of_nonneg_left pos size)
  linarith

end Buckets

-----------------------------------------------------------------------------------------
-- What a histogram says about its values
-----------------------------------------------------------------------------------------

/-- The counts, the minimum and the maximum of a histogram are those of the values. The
minimum starts at the last limit and the maximum at zero.
-/
structure Describes (rounding : Rounding) (values : List ℚ) (h : Histogram) : Prop where
  num : h.num = values.length
  buckets : ∀ b, h.buckets b = values.countP (fun value => bucketOf rounding value = b)
  min : IsLeast {value | value ∈ limit rounding (numBuckets - 1) :: values} h.min
  max : IsGreatest {value | value ∈ (0 : ℚ) :: values} h.max

section Describes

variable {rounding : Rounding}

theorem describes_clear : Describes rounding [] (clear rounding) where
  num := rfl
  buckets _ := rfl
  min := ⟨List.mem_cons_self, by simp [lowerBounds, clear]⟩
  max := ⟨List.mem_cons_self, by simp [upperBounds, clear]⟩

/-- Counts of at most 2^53 are exact. -/
theorem round_add_natCast {m n : Nat} (small : m + n ≤ 2 ^ 53)
    : rounding.round (m + n : ℚ) = ((m + n : Nat) : ℚ) := by
  rw [← Nat.cast_add]
  exact rounding.round_natCast small

theorem members_append (start : ℚ) (first second : List ℚ)
    : {value | value ∈ start :: (first ++ second)}
      = {value | value ∈ start :: first} ∪ {value | value ∈ start :: second} := by
  ext value
  simp only [Set.mem_ofPred_eq, Set.mem_union, List.mem_cons, List.mem_append]
  tauto

theorem members_concat (start : ℚ) (values : List ℚ) (value : ℚ)
    : {other | other ∈ start :: (values ++ [value])}
      = insert value {other | other ∈ start :: values} := by
  ext other
  simp only [Set.mem_ofPred_eq, Set.mem_insert_iff, List.mem_cons, List.mem_append,
    List.not_mem_nil, or_false]
  tauto

/-- Merging describes the values of both. -/
theorem Describes.merge {first second : List ℚ} {h other : Histogram}
    (left : Describes rounding first h) (right : Describes rounding second other)
    (few : (first ++ second).length ≤ 2 ^ 53)
    : Describes rounding (first ++ second) (merge rounding h other) where
  num := by
    rw [List.length_append] at few ⊢
    simp only [Histogram.merge, left.num, right.num, round_add_natCast few]
  buckets b := by
    let counts (values : List ℚ) := values.countP (fun value => bucketOf rounding value = b)
    have fewer : counts first + counts second ≤ 2 ^ 53 := by
      rw [← List.countP_append]
      exact List.countP_le_length.trans few
    rw [List.countP_append]
    simp only [Histogram.merge, left.buckets, right.buckets]
    exact round_add_natCast fewer
  min := by
    have least := right.min.union left.min
    rw [min_def_lt, Set.union_comm, ← members_append] at least
    exact least
  max := by
    have greatest := left.max.union right.max
    rw [max_def_lt, ← members_append] at greatest
    exact greatest

/-- Adding describes one value more. -/
theorem Describes.add {values : List ℚ} {h : Histogram} (describes : Describes rounding values h)
    (few : values.length < 2 ^ 53) (value : ℚ)
    : Describes rounding (values ++ [value]) (add rounding h value) where
  num := by
    rw [List.length_append]
    simp only [Histogram.add, describes.num]
    exact round_add_natCast (n := 1) few
  buckets b := by
    have fewer : values.countP (fun value => bucketOf rounding value = b) + 1 ≤ 2 ^ 53 :=
      Nat.succ_le_of_lt (Nat.lt_of_le_of_lt List.countP_le_length few)
    rw [List.countP_append, List.countP_singleton]
    simp only [Histogram.add, Function.update_apply]
    by_cases same : b = bucketOf rounding value
    · rw [if_pos same, ← same, describes.buckets]
      simp only [decide_true, if_true]
      exact round_add_natCast (n := 1) fewer
    · rw [if_neg same, describes.buckets]
      simp [Ne.symm same]
  min := by
    have least := describes.min.insert value
    rw [min_def_lt, ← members_concat] at least
    exact least
  max := by
    have greatest := describes.max.insert value
    rw [max_comm, max_def_lt, ← members_concat] at greatest
    exact greatest

/-- Any sequence of values is described, by induction from its end. -/
theorem describes_ofValues {values : List ℚ} (few : values.length ≤ 2 ^ 53)
    : Describes rounding values (ofValues rounding values) := by
  induction values using List.reverseRecOn with
  | nil => exact describes_clear
  | append_singleton values value ih =>
      rw [List.length_append, List.length_singleton] at few
      rw [ofValues, List.foldl_append]
      exact (ih (by omega)).add (by omega) value

/-- Merging all parts describes all values, by induction on the parts. -/
theorem describes_merged {parts : List (List ℚ)} (few : parts.flatten.length ≤ 2 ^ 53)
    : Describes rounding parts.flatten
        ((parts.map (ofValues rounding)).foldl (merge rounding) (clear rounding)) := by
  induction parts using List.reverseRecOn with
  | nil => exact describes_clear
  | append_singleton parts part ih =>
      rw [List.flatten_append, List.flatten_singleton] at few ⊢
      have fewer := few
      rw [List.length_append] at fewer
      rw [List.map_append, List.foldl_append]
      exact (ih (by omega)).merge (describes_ofValues (by omega)) few

/-- Two histograms of the same values, in whichever order, have the same counts, minimum and
maximum.
-/
theorem Describes.unique {first second : List ℚ} {h other : Histogram}
    (left : Describes rounding first h) (right : Describes rounding second other)
    (same : first.Perm second)
    : h.num = other.num ∧ h.buckets = other.buckets ∧ h.min = other.min
      ∧ h.max = other.max := by
  have members (start : ℚ)
      : {value | value ∈ start :: first} = {value | value ∈ start :: second} := by
    ext value
    simp only [Set.mem_ofPred_eq, List.mem_cons, same.mem_iff]
  refine ⟨?_, ?_, ?_, ?_⟩
  · rw [left.num, right.num, same.length_eq]
  · funext b
    rw [left.buckets, right.buckets, same.countP_eq]
  · exact left.min.unique (members _ ▸ right.min)
  · exact left.max.unique (members _ ▸ right.max)

end Describes

-----------------------------------------------------------------------------------------
-- Percentiles
-----------------------------------------------------------------------------------------

section Percentiles

variable {rounding : Rounding}

theorem clamp_eq (h : Histogram) (r : ℚ) : clamp h r = Min.min (Max.max r h.min) h.max := by
  simp only [clamp, gt_iff_lt]
  rw [max_def_lt, min_comm, min_def_lt]

/-- How many values lie in the buckets before `b`. -/
def cumulative (rounding : Rounding) (values : List ℚ) (b : Nat) : Nat :=
  values.countP (fun value => bucketOf rounding value < b)

theorem cumulative_succ (values : List ℚ) (b : Nat)
    : cumulative rounding values (b + 1)
      = cumulative rounding values b
        + values.countP (fun value => bucketOf rounding value = b) := by
  induction values with
  | nil => rfl
  | cons value rest ih =>
      simp only [cumulative, List.countP_cons] at ih ⊢
      rw [ih]
      by_cases less : bucketOf rounding value < b
      · simp [less, less.ne, Nat.lt_succ_of_lt less]
        omega
      · by_cases same : bucketOf rounding value = b
        · simp [same]
          omega
        · simp [less, same, show ¬ bucketOf rounding value < b + 1 by omega]

theorem cumulative_le (rounding : Rounding) (values : List ℚ) (b : Nat)
    : cumulative rounding values b ≤ values.length :=
  List.countP_le_length

theorem cumulative_all (values : List ℚ)
    : cumulative rounding values numBuckets = values.length := by
  rw [cumulative, List.countP_eq_length]
  intro value _
  simpa using bucketOf_lt rounding value

variable {values : List ℚ} {h : Histogram}

/-- The bucket whose count takes the running sum to the threshold. -/
structure Straddles (rounding : Rounding) (values : List ℚ) (threshold : ℚ) (b : Nat) : Prop where
  inside : b < numBuckets
  below : cumulative rounding values b < threshold
  reached : threshold ≤ cumulative rounding values (b + 1)

/-- The running sum of `Percentile` is exact, and the loop stops at the bucket that straddles
the threshold. By induction on the buckets to go.
-/
theorem percentileLoop_eq (describes : Describes rounding values h)
    (few : values.length ≤ 2 ^ 53) {threshold : ℚ} (high : threshold ≤ values.length)
    {left b : Nat} (whole : b + left = numBuckets)
    (below : cumulative rounding values b < threshold)
    : ∃ c, Straddles rounding values threshold c
      ∧ percentileLoop rounding h threshold left b (cumulative rounding values b)
        = scale rounding h threshold (cumulative rounding values (c + 1)) c := by
  induction left generalizing b with
  | zero =>
      rw [Nat.add_zero] at whole
      subst whole
      rw [cumulative_all] at below
      exact absurd high (not_le.mpr below)
  | succ left ih =>
      have next : rounding.round (cumulative rounding values b + h.buckets b)
          = cumulative rounding values (b + 1) := by
        have small := (cumulative_le rounding values (b + 1)).trans few
        rw [describes.buckets, cumulative_succ] at *
        exact round_add_natCast small
      simp only [percentileLoop, next, ge_iff_le]
      split
      · next reached => exact ⟨b, ⟨by omega, below, reached⟩, rfl⟩
      · next unreached => exact ih (by omega) (not_le.mp unreached)

/-- How many values lie in the bucket. -/
def bucketCount (rounding : Rounding) (values : List ℚ) (b : Nat) : Nat :=
  values.countP (fun value => bucketOf rounding value = b)

/-- At the bucket that straddles the threshold nothing is divided by zero. -/
theorem Straddles.scale_eq (describes : Describes rounding values h)
    (few : values.length ≤ 2 ^ 53) {threshold : ℚ} {b : Nat}
    (straddles : Straddles rounding values threshold b)
    : scale rounding h threshold (cumulative rounding values (b + 1)) b
      = some (clamp h (interpolate rounding b
          (rounding.round (threshold - cumulative rounding values b))
          (bucketCount rounding values b))) := by
  have small := (cumulative_le rounding values (b + 1)).trans few
  have split : cumulative rounding values (b + 1)
      = cumulative rounding values b + bucketCount rounding values b :=
    cumulative_succ values b
  have count : h.buckets b = bucketCount rounding values b := describes.buckets b
  have leftSum : rounding.round (cumulative rounding values (b + 1) - h.buckets b)
      = cumulative rounding values b := by
    rw [count, split, Nat.cast_add, add_sub_cancel_right]
    exact rounding.round_natCast (by omega)
  have width : rounding.round
      (cumulative rounding values (b + 1) - cumulative rounding values b)
      = bucketCount rounding values b := by
    rw [split, Nat.cast_add, add_sub_cancel_left]
    exact rounding.round_natCast (by omega)
  have some : (bucketCount rounding values b : ℚ) ≠ 0 := by
    have less := lt_of_lt_of_le straddles.below straddles.reached
    rw [split] at less
    have positive : 0 < bucketCount rounding values b := by
      have integers : cumulative rounding values b
          < cumulative rounding values b + bucketCount rounding values b := by
        exact_mod_cast less
      omega
    positivity
  simp only [scale, leftSum, width, if_neg some]

/-- The part of the bucket's count that is below the threshold. -/
theorem Straddles.above_mem {threshold : ℚ} {b : Nat}
    (straddles : Straddles rounding values threshold b) (few : values.length ≤ 2 ^ 53)
    : 0 ≤ rounding.round (threshold - cumulative rounding values b)
      ∧ rounding.round (threshold - cumulative rounding values b)
        ≤ bucketCount rounding values b := by
  have reached := straddles.reached
  have below := straddles.below
  have split : cumulative rounding values (b + 1)
      = cumulative rounding values b + bucketCount rounding values b :=
    cumulative_succ values b
  have small := (cumulative_le rounding values (b + 1)).trans few
  rw [split, Nat.cast_add] at reached
  exact ⟨rounding.round_nonneg (by linarith),
    rounding.round_le_natCast (by omega) (by linarith)⟩

/-- A bucket that straddles a threshold holds a value. -/
theorem Straddles.exists_value {threshold : ℚ} {b : Nat}
    (straddles : Straddles rounding values threshold b)
    : ∃ value ∈ values, bucketOf rounding value = b := by
  by_contra none
  push Not at none
  have empty : values.countP (fun value => bucketOf rounding value = b) = 0 :=
    List.countP_eq_zero.mpr (fun value member => by simpa using none value member)
  have less := lt_of_lt_of_le straddles.below straddles.reached
  rw [cumulative_succ, empty, Nat.add_zero] at less
  exact lt_irrefl _ less

theorem Describes.min_le (describes : Describes rounding values h) {value : ℚ}
    (member : value ∈ values)
    : h.min ≤ value :=
  describes.min.2 (List.mem_cons_of_mem _ member)

theorem Describes.le_max (describes : Describes rounding values h) {value : ℚ}
    (member : value ∈ values)
    : value ≤ h.max :=
  describes.max.2 (List.mem_cons_of_mem _ member)

/-- The returned number lies between the extremes and between the ends of its bucket: a
correction moves it no further than to a value of the histogram.
-/
theorem Straddles.clamp_mem (describes : Describes rounding values h)
    (few : values.length ≤ 2 ^ 53) (nonneg : ∀ value ∈ values, 0 ≤ value) {threshold : ℚ}
    {b : Nat} (straddles : Straddles rounding values threshold b) {r : ℚ}
    (scaled : r = clamp h (interpolate rounding b
      (rounding.round (threshold - cumulative rounding values b))
      (bucketCount rounding values b)))
    : h.min ≤ r ∧ r ≤ h.max ∧ leftPoint rounding b ≤ r
      ∧ (b < numBuckets - 1 → r ≤ limit rounding b) := by
  obtain ⟨value, member, bucket⟩ := straddles.exists_value
  obtain ⟨above, within⟩ := straddles.above_mem few
  have low := leftPoint_le_interpolate rounding straddles.inside above within
  have least := describes.min_le member
  have greatest := describes.le_max member
  have notBelow : leftPoint rounding b ≤ value := by
    unfold leftPoint
    split
    · exact nonneg value member
    · exact limit_le_of_bucketOf rounding (by omega)
  rw [clamp_eq] at scaled
  subst scaled
  refine ⟨le_min (le_max_right _ _) (least.trans greatest), min_le_right _ _,
    le_min (low.trans (le_max_left _ _)) (notBelow.trans greatest), ?_⟩
  intro inner
  have high := interpolate_le_limit rounding inner above within
  have notAbove : value < limit rounding b := by
    rw [← bucket] at inner ⊢
    exact lt_limit_of_bucketOf rounding inner
  exact (min_le_left _ _).trans (max_le high (least.trans notAbove.le))

/-- The threshold of a percentile is positive and at most the number of values. -/
theorem Describes.threshold_mem (describes : Describes rounding values h)
    (few : values.length ≤ 2 ^ 53) (nonempty : values ≠ []) {p : ℚ} (low : 1 ≤ p)
    (high : p ≤ 100)
    : 0 < threshold rounding h p ∧ threshold rounding h p ≤ values.length := by
  have part : 1 / 128 ≤ rounding.round (p / 100) := by
    have exact := rounding.exact 1 7 (by norm_num) (by norm_num)
    have rounded := rounding.monotone (show (1 : ℚ) / 128 ≤ p / 100 by linarith)
    norm_num at exact rounded ⊢
    rwa [exact] at rounded
  have whole : rounding.round (p / 100) ≤ 1 := by
    have rounded := rounding.monotone (show p / 100 ≤ (1 : ℚ) by linarith)
    rwa [rounding.round_one] at rounded
  have some : (1 : ℚ) ≤ values.length := by
    exact_mod_cast List.length_pos_iff.mpr nonempty
  rw [threshold, describes.num]
  constructor
  · apply rounding.round_pos
    calc (1 : ℚ) / 2 ^ 64 ≤ 1 * (1 / 128) := by norm_num
      _ ≤ values.length * rounding.round (p / 100) := by gcongr
  · apply rounding.round_le_natCast few
    exact mul_le_of_le_one_right (by positivity) whole

/-- A percentile is the scaled and corrected point of the bucket that straddles its
threshold.
-/
theorem Describes.percentile_eq (describes : Describes rounding values h)
    (few : values.length ≤ 2 ^ 53) (nonempty : values ≠ []) {p : ℚ} (low : 1 ≤ p)
    (high : p ≤ 100)
    : ∃ b, Straddles rounding values (threshold rounding h p) b
      ∧ percentile rounding h p = some (clamp h (interpolate rounding b
          (rounding.round (threshold rounding h p - cumulative rounding values b))
          (bucketCount rounding values b))) := by
  obtain ⟨positive, bounded⟩ := describes.threshold_mem few nonempty low high
  have none : cumulative rounding values 0 = 0 := by simp [cumulative]
  obtain ⟨b, straddles, stops⟩ := percentileLoop_eq describes few bounded
    (Nat.zero_add numBuckets) (by rwa [none, Nat.cast_zero])
  rw [none, Nat.cast_zero] at stops
  exact ⟨b, straddles, stops.trans (straddles.scale_eq describes few)⟩

/-- Of two thresholds the smaller one is straddled no later. -/
theorem Straddles.le {less more : ℚ} {b c : Nat} (left : Straddles rounding values less b)
    (right : Straddles rounding values more c) (ordered : less ≤ more)
    : b ≤ c := by
  by_contra later
  have counts : cumulative rounding values (c + 1) ≤ cumulative rounding values b :=
    List.countP_mono_left (fun value _ inside => by
      simp only [decide_eq_true_eq] at inside ⊢
      omega)
  have below := left.below
  have reached := right.reached
  have cast : (cumulative rounding values (c + 1) : ℚ) ≤ cumulative rounding values b := by
    exact_mod_cast counts
  linarith

end Percentiles

/-- Histograms of parts that are merged in any order agree with one histogram of all values
in any order: the counts, the minimum and the maximum are those of the values, whatever is
rounded.
-/
theorem merged_agrees (rounding : Rounding) {parts : List (List ℚ)} {values : List ℚ}
    (same : parts.flatten.Perm values) (few : values.length ≤ 2 ^ 53)
    : let merged := (parts.map (ofValues rounding)).foldl (merge rounding) (clear rounding)
      let single := ofValues rounding values
      Describes rounding values single
      ∧ merged.num = single.num ∧ merged.buckets = single.buckets
      ∧ merged.min = single.min ∧ merged.max = single.max := by
  have described : Describes rounding values (ofValues rounding values) :=
    describes_ofValues few
  exact ⟨described, (describes_merged (same.length_eq ▸ few)).unique described same⟩

/-- Witness: the latencies of two threads. -/
theorem merged_agrees_two
    : let merged := ([[3, 250], [9]].map (ofValues .exactly)).foldl (merge .exactly)
        (clear .exactly)
      merged.num = (ofValues .exactly [250, 9, 3]).num ∧ merged.num = 3 := by
  have same : ([[3, 250], [9]] : List (List ℚ)).flatten.Perm [250, 9, 3] := by decide
  obtain ⟨described, num, -⟩ := merged_agrees .exactly same (by norm_num)
  exact ⟨num, num.trans described.num⟩

/-- Percentiles are ordered as their ranks: for values that are not negative the smaller one
is at least the minimum and the larger one at most the maximum. Each lies between the ends
of the bucket whose count takes the running sum to its threshold.
-/
theorem percentiles_ordered {rounding : Rounding} {values : List ℚ} {h : Histogram}
    (describes : Describes rounding values h) (few : values.length ≤ 2 ^ 53)
    (nonempty : values ≠ []) (nonneg : ∀ value ∈ values, 0 ≤ value) {p q : ℚ} (low : 1 ≤ p)
    (ordered : p ≤ q) (high : q ≤ 100)
    : ∃ r s b c, percentile rounding h p = some r ∧ percentile rounding h q = some s
      ∧ h.min ≤ r ∧ r ≤ s ∧ s ≤ h.max
      ∧ Straddles rounding values (threshold rounding h p) b ∧ leftPoint rounding b ≤ r
      ∧ Straddles rounding values (threshold rounding h q) c ∧ leftPoint rounding c ≤ s
      ∧ (b < numBuckets - 1 → r ≤ limit rounding b)
      ∧ (c < numBuckets - 1 → s ≤ limit rounding c) := by
  obtain ⟨b, lower, first⟩ :=
    describes.percentile_eq few nonempty low (ordered.trans high)
  obtain ⟨c, upper, second⟩ :=
    describes.percentile_eq few nonempty (low.trans ordered) high
  obtain ⟨minimum, -, lowerLeft, lowerRight⟩ := lower.clamp_mem describes few nonneg rfl
  obtain ⟨-, maximum, upperLeft, upperRight⟩ := upper.clamp_mem describes few nonneg rfl
  have thresholds : threshold rounding h p ≤ threshold rounding h q := by
    have parts := rounding.monotone (show p / 100 ≤ q / 100 by linarith)
    apply rounding.monotone
    rw [describes.num]
    exact mul_le_mul_of_nonneg_left parts (by positivity)
  refine ⟨_, _, b, c, first, second, minimum, ?_, maximum, lower, lowerLeft, upper, upperLeft,
    lowerRight, upperRight⟩
  rcases Nat.eq_or_lt_of_le (lower.le upper thresholds) with rfl | before
  · -- In one bucket both are scaled alike.
    rw [clamp_eq, clamp_eq]
    have aboves := rounding.monotone
      (sub_le_sub_right thresholds (cumulative rounding values b : ℚ))
    exact min_le_min_right _ (max_le_max_right _
      (interpolate_mono rounding lower.inside aboves))
  · -- Otherwise the upper end of the first bucket is at most the lower end of the second.
    have inner : b < numBuckets - 1 := by
      have inside := upper.inside
      omega
    have ends : limit rounding b ≤ leftPoint rounding c := by
      unfold leftPoint
      rw [if_neg (by omega)]
      rcases Nat.eq_or_lt_of_le (show b ≤ c - 1 by omega) with same | less
      · rw [same]
      · have inside := upper.inside
        exact limit_mono rounding less (by omega)
    exact (lowerRight inner).trans (ends.trans upperLeft)

/-- Witness: the median and the last printed percentile of three latencies. -/
theorem percentiles_ordered_three
    : ∃ r s, percentile .exactly (ofValues .exactly [3, 250, 9]) 50 = some r
      ∧ percentile .exactly (ofValues .exactly [3, 250, 9]) (9999 / 100) = some s
      ∧ r ≤ s := by
  have described : Describes .exactly [3, 250, 9] (ofValues .exactly [3, 250, 9]) :=
    describes_ofValues (by norm_num)
  obtain ⟨r, s, -, -, first, second, -, ordered, -⟩ :=
    percentiles_ordered described (by norm_num) (by simp) (by norm_num)
      (show (1 : ℚ) ≤ 50 by norm_num) (show (50 : ℚ) ≤ 9999 / 100 by norm_num) (by norm_num)
  exact ⟨r, s, first, second, ordered⟩

end Histogram

end PMKVLab.Bench
