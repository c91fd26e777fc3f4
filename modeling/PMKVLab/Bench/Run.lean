import PMKVLab.Bench.LoopRuns

/-! `RunBenchmark` under a schedule, and `Run` on lists of the graded benchmarks: which
method each name selects, and which names start from a fresh store.
-/

namespace PMKVLab.Bench

open PMKVLab.Library PMKVLab.Store

/-- The benchmarks that make one pass of a loop. -/
inductive BenchmarkName
  | fillseq
  | fillrandom
  | overwrite
  | readseq
  | readrandom
  | readmissing
  | deleteseq
  | deleterandom
deriving DecidableEq, Repr

namespace BenchmarkName

/-- Whether the pool is removed and created again before the benchmark. -/
def freshDb : BenchmarkName → Bool
  | .fillseq | .fillrandom => true
  | _ => false

variable {Store : Type} (flags : Flags) (bm : Benchmark) (kv : KV Store)

def method : BenchmarkName → Method Store
  | .fillseq => writeSeq flags bm kv
  | .fillrandom => writeRandom flags bm kv
  | .overwrite => writeRandom flags bm kv
  | .readseq => readSeq flags bm kv
  | .readrandom => readRandom flags bm kv
  | .readmissing => readMissing flags bm kv
  | .deleteseq => deleteSeq flags bm kv
  | .deleterandom => deleteRandom flags bm kv

/-- The loop of the selected method. -/
def loop : BenchmarkName → LoopBody Store
  | .fillseq => writeLoop flags bm kv true
  | .fillrandom => writeLoop flags bm kv false
  | .overwrite => writeLoop flags bm kv false
  | .readseq => readLoop bm kv true false
  | .readrandom => readLoop bm kv false false
  | .readmissing => readLoop bm kv false true
  | .deleteseq => deleteLoop bm kv true
  | .deleterandom => deleteLoop bm kv false

theorem method_eq_forLoop (name : BenchmarkName)
    : name.method flags bm kv = forLoop flags bm (name.loop flags bm kv) := by
  cases name <;> rfl

end BenchmarkName

/-- `RunBenchmark` under one schedule of its threads: the store it leaves and the lines it
prints, or `none` when the schedule is not a complete run.
-/
def runBenchmark {Store : Type} (threads : Int) (method : Method Store)
    (schedule : List Action) (store : Store)
    : Option (Store × List Report) :=
  -- `new ThreadArg[n]` throws for a negative number of threads
  if threads < 0 then none
  else
    (execute System.step schedule (System.init method threads.toNat store)).bind
      (fun s => if s.Finished then some (s.store, s.reports) else none)

/-- `Run` on a finite-map store: the outcome of each benchmark, each with its schedule. -/
def runAll (fits : Nat → Bool) (flags : Flags)
    : List (BenchmarkName × List Action) → Contents → Option (List (Contents × List Report))
  | [], _ => some []
  | (name, schedule) :: rest, store =>
      let opened := if name.freshDb then ∅ else store
      let method := name.method flags (.reset flags) (mapKV fits)
      (runBenchmark flags.threads method schedule opened).bind (fun outcome =>
        (runAll fits flags rest outcome.1).map (outcome :: ·))

/-- A complete run is a reachable finished state. -/
theorem runBenchmark_eq_some {Store : Type} {threads : Int} {method : Method Store}
    {schedule : List Action} {store : Store} {outcome : Store × List Report}
    (ran : runBenchmark threads method schedule store = some outcome)
    : 0 ≤ threads
      ∧ ∃ s, Reachable System.step (System.init method threads.toNat store) s
          ∧ s.Finished
          ∧ outcome = (s.store, s.reports) := by
  unfold runBenchmark at ran
  split at ran
  · cases ran
  · next nonnegative =>
    obtain ⟨s, executed, ended⟩ := Option.bind_eq_some_iff.mp ran
    split at ended
    · next finished =>
      cases ended
      exact ⟨Int.not_lt.mp nonnegative, s, ⟨schedule, executed⟩, finished, rfl⟩
    · cases ended

end PMKVLab.Bench
