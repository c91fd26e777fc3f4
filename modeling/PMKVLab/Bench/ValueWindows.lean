import PMKVLab.Bench.ReadWriteMix

/-! The values that `RandomGenerator` hands out: its buffer ends at a known size, and the
windows of equal length walk through it and start over, without the 32-bit cursor wrapping.
-/

namespace PMKVLab.Bench

open PMKVLab.Library PMKVLab.Store

-----------------------------------------------------------------------------------------
-- The buffer
-----------------------------------------------------------------------------------------

theorem randomString_length (len : Nat) (rnd : Random)
    : (randomString len rnd).1.length = len := by
  induction len generalizing rnd with
  | zero => rfl
  | succ len ih => exact congrArg (· + 1) (ih rnd.next.2)

theorem compressibleString_length (len : Nat) (rnd : Random)
    : (compressibleString len rnd).1.length = len := by
  simp only [compressibleString, List.length_take, randomString_length]
  omega

namespace RandomGenerator

/-- The constructor's loop is left because the target is reached, at most one piece late.
Witness: induction on the fuel, which covers what is missing.
-/
theorem appendPieces_length {target fuel : Nat} {data : Bytes} {rnd : Random}
    (pieces : 100 ∣ data.length) (enough : target ≤ data.length + 100 * fuel)
    (late : data.length < target + 100)
    : 100 ∣ (appendPieces target fuel data rnd).length
      ∧ target ≤ (appendPieces target fuel data rnd).length
      ∧ (appendPieces target fuel data rnd).length < target + 100 := by
  induction fuel generalizing data rnd with
  | zero => exact ⟨pieces, enough, late⟩
  | succ fuel ih =>
      unfold appendPieces
      split
      · next short =>
        -- named, so that the 100 random characters are not computed
        have whole := compressibleString_length 100 rnd
        generalize compressibleString 100 rnd = drawn at whole ⊢
        have longer : (data ++ drawn.1).length = data.length + 100 := by
          rw [List.length_append, whole]
        refine ih ?_ ?_ ?_
        · rw [longer]
          exact Nat.dvd_add pieces (Nat.dvd_refl 100)
        · omega
        · omega
      · next reached => exact ⟨pieces, Nat.le_of_not_lt reached, late⟩

/-- The size of the buffer: a multiple of 100, and the first that reaches the target. -/
structure Sized (gen : RandomGenerator) (target : Nat) : Prop where
  pieces : 100 ∣ gen.data.length
  reaches : target ≤ gen.data.length
  first : gen.data.length < target + 100

theorem make_sized (valueSize : Int)
    : (make valueSize).Sized (max 1048576 valueSize).toNat := by
  obtain ⟨pieces, reaches, first⟩ := @appendPieces_length (max 1048576 valueSize).toNat
    (max 1048576 valueSize).toNat [] (Random.make 301) (Nat.dvd_zero 100)
    (by simp only [List.length_nil]; omega) (by simp)
  exact ⟨pieces, reaches, first⟩

/-- No smaller multiple of 100 reaches the target. -/
theorem Sized.least {gen : RandomGenerator} {target size : Nat} (sized : gen.Sized target)
    (pieces : 100 ∣ size) (reaches : target ≤ size)
    : gen.data.length ≤ size := by
  have first := sized.first
  obtain ⟨count, rfl⟩ := pieces
  obtain ⟨own, length⟩ := sized.pieces
  omega

-----------------------------------------------------------------------------------------
-- The cursor
-----------------------------------------------------------------------------------------

/-- The generator after some calls of `Generate` with one length. -/
def afterCalls (gen : RandomGenerator) (len : Nat) : Nat → RandomGenerator
  | 0 => gen
  | calls + 1 => ((gen.afterCalls len calls).generate len).2

/-- Where the window of the next call starts, after some calls. -/
def windowStart (size len calls : Nat) : Nat := calls % (size / len) * len

/-- The cursor after some calls: it stands at the end of the last window. -/
def cursor (size len : Nat) : Nat → Nat
  | 0 => 0
  | calls + 1 => windowStart size len calls + len

/-- A call whose additions fit 32 bits: the window is at the cursor, or at the start. -/
theorem generate_eq {gen : RandomGenerator} {len : Nat} (fits : gen.pos + len < 2 ^ 32)
    : gen.generate len
      = ((gen.data.drop (if gen.data.length < gen.pos + len then 0 else gen.pos)).take len,
        ⟨gen.data, (if gen.data.length < gen.pos + len then 0 else gen.pos) + len⟩) := by
  unfold generate
  rw [Nat.mod_eq_of_lt fits]
  split
  · dsimp only
    rw [Nat.mod_eq_of_lt (by omega), Nat.add_sub_cancel]
  · dsimp only
    rw [Nat.mod_eq_of_lt fits, Nat.add_sub_cancel]

section Windows

variable {size len : Nat}

/-- Every window ends inside the buffer. -/
theorem windowStart_add_le (fits : len ≤ size) (calls : Nat)
    : windowStart size len calls + len ≤ size / len * len := by
  rcases Nat.eq_zero_or_pos len with rfl | positive
  · simp [windowStart]
  · have some : 0 < size / len := Nat.div_pos fits positive
    have below : calls % (size / len) + 1 ≤ size / len := Nat.mod_lt calls some
    calc windowStart size len calls + len
        = (calls % (size / len) + 1) * len := by rw [windowStart, Nat.succ_mul]
      _ ≤ size / len * len := Nat.mul_le_mul_right len below

/-- The cursor stays at the end of a window. -/
theorem cursor_le (fits : len ≤ size) (calls : Nat)
    : cursor size len calls ≤ size / len * len := by
  cases calls with
  | zero => exact Nat.zero_le _
  | succ calls => exact windowStart_add_le fits calls

/-- The test of `Generate` sends the cursor to the next window, or to the first after the
last one.
-/
theorem windowStart_of_cursor (fits : len ≤ size) (calls : Nat)
    : (if size < cursor size len calls + len then 0 else cursor size len calls)
      = windowStart size len calls := by
  cases calls with
  | zero => simp [cursor, windowStart, Nat.not_lt.mpr fits]
  | succ calls =>
      rcases Nat.eq_zero_or_pos len with rfl | positive
      · simp [cursor, windowStart]
      · have some : 0 < size / len := Nat.div_pos fits positive
        have below : calls % (size / len) < size / len := Nat.mod_lt calls some
        have stands : cursor size len (calls + 1) = (calls % (size / len) + 1) * len := by
          rw [cursor, windowStart, Nat.succ_mul]
        have turn := Nat.mod_add_mod calls (size / len) 1
        rw [stands, windowStart, ← Nat.succ_mul]
        by_cases last : calls % (size / len) + 1 = size / len
        · -- one more window than the buffer holds
          have past : size < (size / len + 1) * len := by
            rw [Nat.succ_mul]
            exact Nat.lt_div_mul_add positive
          have again : (calls + 1) % (size / len) = 0 := by
            rw [← turn, last, Nat.mod_self]
          rw [last, if_pos past, again, Nat.zero_mul]
        · have room : (calls % (size / len) + 1 + 1) * len ≤ size :=
            (Nat.mul_le_mul_right len (by omega)).trans (Nat.div_mul_le_self size len)
          have onward : (calls + 1) % (size / len) = calls % (size / len) + 1 :=
            turn.symm.trans (Nat.mod_eq_of_lt (by omega))
          rw [if_neg (Nat.not_lt.mpr room), onward]

end Windows

/-- A buffer that holds a window, and whose cursor never wraps at any end of a window. -/
structure Holds (gen : RandomGenerator) (len : Nat) : Prop where
  fits : len ≤ gen.data.length
  narrow : gen.data.length / len * len + len < 2 ^ 32

namespace Holds

variable {gen : RandomGenerator} {len : Nat}

/-- A call at the cursor's place returns the window that starts there. -/
theorem generate (holds : gen.Holds len) (calls : Nat)
    : (RandomGenerator.mk gen.data (cursor gen.data.length len calls)).generate len
      = ((gen.data.drop (windowStart gen.data.length len calls)).take len,
        ⟨gen.data, cursor gen.data.length len (calls + 1)⟩) := by
  have stands := cursor_le holds.fits calls
  have narrow := holds.narrow
  rw [generate_eq (by dsimp only; omega)]
  dsimp only
  rw [windowStart_of_cursor holds.fits calls]
  rfl

/-- The cursor after any number of calls, by induction on the calls. -/
theorem afterCalls (holds : gen.Holds len) (fresh : gen.pos = 0) (calls : Nat)
    : gen.afterCalls len calls = ⟨gen.data, cursor gen.data.length len calls⟩ := by
  induction calls with
  | zero =>
      rw [RandomGenerator.afterCalls, cursor, ← fresh]
  | succ calls ih =>
      rw [RandomGenerator.afterCalls, ih, holds.generate calls]

end Holds

/-- Long values leave room for one window only, and the cursor stands at its end at most;
short ones are far from 32 bits.
-/
theorem make_holds {valueSize : Int} (nonneg : 0 ≤ valueSize) (bounded : valueSize ≤ 2 ^ 31 - 1)
    : (make valueSize).Holds valueSize.toNat := by
  have reaches := (make_sized valueSize).reaches
  have first := (make_sized valueSize).first
  refine ⟨by omega, ?_⟩
  by_cases long : 1048576 < valueSize
  · have one : (make valueSize).data.length / valueSize.toNat = 1 :=
      Nat.div_eq_of_lt_le (by omega) (by omega)
    rw [one]
    omega
  · have inside := Nat.div_mul_le_self (make valueSize).data.length valueSize.toNat
    omega

end RandomGenerator

/-- The windows of `Generate`, for every value size an `int` flag can hold: the buffer has
the least multiple of 100 bytes that reaches the target, and the call after `calls` others
takes the next window, inside the buffer, with neither of its additions wrapping.
-/
theorem randomGenerator_windows (valueSize : Int) (nonneg : 0 ≤ valueSize)
    (bounded : valueSize ≤ 2 ^ 31 - 1)
    : (100 ∣ (RandomGenerator.make valueSize).data.length
        ∧ max 1048576 valueSize ≤ (RandomGenerator.make valueSize).data.length
        ∧ ∀ size : Nat, 100 ∣ size → max 1048576 valueSize ≤ size
          → (RandomGenerator.make valueSize).data.length ≤ size)
      ∧ ∀ calls : Nat,
          let gen := (RandomGenerator.make valueSize).afterCalls valueSize.toNat calls
          ∃ start : Nat,
            gen.generate valueSize.toNat
              = ((gen.data.drop start).take valueSize.toNat,
                ⟨gen.data, start + valueSize.toNat⟩)
            ∧ gen.data = (RandomGenerator.make valueSize).data
            ∧ start + valueSize.toNat ≤ gen.data.length
            ∧ (0 < valueSize
              → start = calls % (gen.data.length / valueSize.toNat) * valueSize.toNat)
            ∧ gen.pos + valueSize.toNat < 2 ^ 32
            ∧ start + valueSize.toNat < 2 ^ 32 := by
  have sized := RandomGenerator.make_sized valueSize
  have holds := RandomGenerator.make_holds nonneg bounded
  refine ⟨⟨sized.pieces, ?_, ?_⟩, ?_⟩
  · have reaches := sized.reaches
    omega
  · intro size pieces reaches
    exact sized.least pieces (by omega)
  · intro calls
    dsimp only
    rw [holds.afterCalls rfl calls]
    have ends := RandomGenerator.windowStart_add_le holds.fits calls
    have stands := RandomGenerator.cursor_le holds.fits calls
    have inside :=
      Nat.div_mul_le_self (RandomGenerator.make valueSize).data.length valueSize.toNat
    have narrow := holds.narrow
    refine ⟨_, holds.generate calls, rfl, ends.trans inside, fun _ => rfl, ?_, ?_⟩
    · exact Nat.lt_of_le_of_lt (Nat.add_le_add_right stands _) narrow
    · omega

/-- With values of 100 bytes the buffer has 1048600 bytes. -/
theorem randomGenerator_windows_hundred
    : (RandomGenerator.make 100).data.length = 1048600 := by
  obtain ⟨⟨pieces, reaches, least⟩, _⟩ := randomGenerator_windows 100 (by decide) (by decide)
  have upper := least 1048600 (by decide) (by decide)
  obtain ⟨count, length⟩ := pieces
  omega

-----------------------------------------------------------------------------------------
-- The puts of a run
-----------------------------------------------------------------------------------------

section Runs

variable {Store : Type} {flags : Flags} {bm : Benchmark} {kv : KV Store} {percent : Int}

/-- A successful put takes one value from the generator and counts one write. -/
theorem MixState.put_gen {m next : MixState} {store after : Store}
    (continued : m.put bm kv store = .continues next after)
    : next.gen = (m.gen.generate bm.valueSize.toNat).2 ∧ next.writesDone = m.writesDone + 1 := by
  unfold MixState.put at continued
  split at continued
  · cases continued
  · dsimp only at continued
    split at continued
    · cases continued
      exact ⟨rfl, rfl⟩
    · cases continued

/-- The generator has been called once for each write. -/
def MixState.Generated (flags : Flags) (bm : Benchmark) (m : MixState) : Prop :=
  m.gen = (RandomGenerator.make flags.valueSize).afterCalls bm.valueSize.toNat m.writesDone

/-- One iteration calls the generator with its write, or leaves both alone. -/
theorem MixState.Generated.operate {m next : MixState} {store after : Store}
    (generated : m.Generated flags bm) (continued : m.operate bm kv store = .continues next after)
    : next.Generated flags bm := by
  unfold MixState.operate at continued
  split at continued
  · cases continued
    exact generated
  · split at continued
    · obtain ⟨gen, writes⟩ := MixState.put_gen continued
      unfold MixState.Generated at generated ⊢
      rw [gen, writes, generated]
      rfl
    · cases continued
      exact generated

theorem MixState.Generated.refill {m : MixState} (generated : m.Generated flags bm)
    : (m.refill percent).Generated flags bm := by
  unfold MixState.refill
  split
  · exact generated
  · exact generated

/-- The phase of a thread, as far as its generator is concerned. -/
def Generating (flags : Flags) (bm : Benchmark) (kv : KV Store) (percent : Int) (_tid : Nat)
    : Phase (readRandomWriteRandom flags bm kv percent) → Prop
  | .running (m : MixState) => m.Generated flags bm
  | _ => True

theorem generating_keeps (n : Nat)
    : (readRandomWriteRandom flags bm kv percent).Keeps n
        (fun phases _ => ∀ i : Fin n, Generating flags bm kv percent i (phases i)) := by
  apply Method.keeps_each
  · intro i m entered
    obtain ⟨key, _, rfl⟩ := Option.map_eq_some_iff.mp entered
    exact rfl
  · intro i m next store after shared generated stepped
    simp only [readRandomWriteRandom] at stepped
    split at stepped
    · cases stepped
    · split at stepped
      · cases stepped
      · refine MixState.Generated.operate (MixState.Generated.refill ?_) stepped
        -- drawing a key and counting leave the generator alone
        exact generated
  · intro i m thread store after shared _ _
    exact trivial

/-- In every reachable state of `ReadRandomWriteRandom`, the next put of a thread stores the
window that follows its writes so far.
-/
theorem put_window_of_reachable {n : Nat} {store : Store}
    {s : System (readRandomWriteRandom flags bm kv percent) n}
    (reachable : Reachable System.step
      (System.init (readRandomWriteRandom flags bm kv percent) n store) s)
    {i : Fin n} {m : MixState} (running : s.workers i = .running m)
    (same : bm.valueSize = flags.valueSize) (nonneg : 0 ≤ flags.valueSize)
    (bounded : flags.valueSize ≤ 2 ^ 31 - 1)
    : (m.gen.generate bm.valueSize.toNat).1
      = ((RandomGenerator.make flags.valueSize).data.drop
          (RandomGenerator.windowStart (RandomGenerator.make flags.valueSize).data.length
            bm.valueSize.toNat m.writesDone)).take bm.valueSize.toNat := by
  have phases := (generating_keeps n).of_reachable (fun _ => trivial) reachable i
  rw [phases_of_worker running] at phases
  have generated : m.Generated flags bm := phases
  have holds := RandomGenerator.make_holds nonneg bounded
  rw [generated, same, holds.afterCalls rfl, holds.generate]

end Runs

end PMKVLab.Bench
