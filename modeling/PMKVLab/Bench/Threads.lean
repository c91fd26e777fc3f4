import PMKVLab.Store.Engine

/-! The per-thread data of `bench.cc`: flags, the random generator, statistics and the
thread state. Clock readings and latencies are in `Latencies`; nothing below reads them.
-/

namespace PMKVLab.Bench

/-- The integer flags a benchmark reads, as set by `main`. -/
structure Flags where
  num : Int
  reads : Int
  threads : Int
  keySize : Int
  valueSize : Int
deriving DecidableEq, Repr

/-- The parameters of `Benchmark` that `Run` resets before each benchmark. -/
structure Benchmark where
  num : Int
  reads : Int
  keySize : Int
  valueSize : Int
deriving DecidableEq, Repr

/-- `Run` copies the flags; a negative number of reads stands for `num`. -/
def Benchmark.reset (flags : Flags) : Benchmark where
  num := flags.num
  reads := if flags.reads < 0 then flags.num else flags.reads
  keySize := flags.keySize
  valueSize := flags.valueSize

-----------------------------------------------------------------------------------------
-- The random generator
-----------------------------------------------------------------------------------------

/-- `leveldb::Random`, a multiplicative generator modulo 2^31 - 1. -/
structure Random where
  seed : Nat
deriving DecidableEq, Repr

namespace Random

def modulus : Nat := 2147483647

/-- The constructor masks its argument and avoids the two fixed points. -/
def make (s : Nat) : Random :=
  let seed := s % 2 ^ 31
  if seed = 0 ∨ seed = modulus then ⟨1⟩ else ⟨seed⟩

/-- `Next`, with the `uint32_t` result and the advanced generator. -/
def next (random : Random) : Nat × Random :=
  let product := random.seed * 16807
  let seed := (product / 2 ^ 31 + product % 2 ^ 31) % 2 ^ 32
  let seed := if seed > modulus then seed - modulus else seed
  (seed, ⟨seed⟩)

end Random

-----------------------------------------------------------------------------------------
-- Statistics
-----------------------------------------------------------------------------------------

/-- The counters and the message of `Stats`. -/
structure Stats where
  done : Nat
  bytes : Nat
  message : String
deriving DecidableEq, Repr

namespace Stats

/-- What `Start` resets. -/
def start : Stats := ⟨0, 0, ""⟩

/-- `FinishedSingleOp` without its progress lines. Those are timed by `next_report_`, which
overflows from the 2147400000th operation of a thread on; counts are below that here.
-/
def finishedSingleOp (stats : Stats) : Stats := { stats with done := stats.done + 1 }

def addBytes (stats : Stats) (n : Nat) : Stats := { stats with bytes := stats.bytes + n }

/-- `AppendWithSpace`. -/
def appendWithSpace (text msg : String) : String :=
  if msg = "" then text else if text = "" then msg else text ++ " " ++ msg

def addMessage (stats : Stats) (msg : String) : Stats :=
  { stats with message := appendWithSpace stats.message msg }

/-- The first message is kept as it is. -/
theorem appendWithSpace_empty (msg : String) : appendWithSpace "" msg = msg := by
  unfold appendWithSpace
  split
  · next empty => exact empty.symm
  · rfl

end Stats

/-- The part of a `Stats::Report` line that does not depend on the clock. -/
structure Report where
  ops : Nat
  bytes : Nat
  message : String
deriving DecidableEq, Repr

/-- At least one operation is reported. -/
def Stats.report (stats : Stats) : Report :=
  ⟨if stats.done < 1 then 1 else stats.done, stats.bytes, stats.message⟩

/-- `ThreadState`: `rand` is seeded with 1000 plus the thread's index. -/
structure ThreadState where
  tid : Nat
  rand : Random
  stats : Stats
deriving DecidableEq, Repr

def ThreadState.make (index : Nat) : ThreadState := ⟨index, Random.make (1000 + index), .start⟩

end PMKVLab.Bench
