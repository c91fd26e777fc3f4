import PMKVLab.Bench.Run

/-! The graded benchmarks leave the same contents and print the same counts under every
interleaving of their threads, and whether they end does not depend on it either.
-/

namespace PMKVLab.Bench

open PMKVLab.Library PMKVLab.Store

-----------------------------------------------------------------------------------------
-- The outcome of one benchmark
-----------------------------------------------------------------------------------------

namespace BenchmarkName

variable (fits : Nat → Bool) (bm : Benchmark)

/-- What one call of the benchmark does to the contents. -/
def effect : BenchmarkName → Bytes → Contents → Contents
  | .fillseq | .fillrandom | .overwrite => fun key contents =>
      contents.insert key (writtenValue bm)
  | .readseq | .readrandom | .readmissing => fun _ contents => contents
  | .deleteseq | .deleterandom => fun key contents => contents.erase key

/-- The bytes and hits one call of the benchmark counts. -/
def cost : BenchmarkName → Bytes → Contents → Nat × Nat
  | .fillseq | .fillrandom | .overwrite => fun key _ =>
      (bm.valueSize.toNat + key.length, 0)
  | .readseq | .readrandom | .readmissing => fun key contents =>
      (((mapKV fits).get key contents).2.length + key.length,
        if ((mapKV fits).get key contents).1 = .ok then 1 else 0)
  | .deleteseq | .deleterandom => fun _ _ => (0, 0)

variable (flags : Flags) {Store : Type} {kv : KV Store} {holds : Store → Contents → Prop}

variable {fits} in
theorem loop_acts (name : BenchmarkName) (laws : kv.MapLaws fits holds)
    : (name.loop flags bm kv).Acts holds (name.effect bm) (name.cost fits bm) := by
  cases name with
  | fillseq => exact writeLoop_acts flags bm laws true
  | fillrandom | overwrite => exact writeLoop_acts flags bm laws false
  | readseq => exact readLoop_acts bm laws true false
  | readrandom => exact readLoop_acts bm laws false false
  | readmissing => exact readLoop_acts bm laws false true
  | deleteseq => exact deleteLoop_acts bm laws true
  | deleterandom => exact deleteLoop_acts bm laws false

/-- The contents and reports of the threads run one after another. -/
def outcome (name : BenchmarkName) (n : Nat) (store : Contents) : Contents × List Report :=
  let loop := name.loop flags bm (mapKV fits)
  let cost := fun key => name.cost fits bm key store
  (perform (name.effect bm)
      (together (fun i : Fin n => soloKeys flags bm loop cost i loop.count.toNat)) store,
    (List.finRange n).map (fun i : Fin n =>
      (loop.leave (soloState flags bm loop cost i loop.count.toNat)).stats.report))

variable (kv) in
/-- What a loop does around its calls does not depend on the store. -/
theorem loop_around (name : BenchmarkName)
    : (name.loop flags bm kv).count = (name.loop flags bm (mapKV fits)).count
      ∧ (name.loop flags bm kv).seq = (name.loop flags bm (mapKV fits)).seq
      ∧ (name.loop flags bm kv).enter = (name.loop flags bm (mapKV fits)).enter
      ∧ (name.loop flags bm kv).leave = (name.loop flags bm (mapKV fits)).leave := by
  cases name <;> exact ⟨rfl, rfl, rfl, rfl⟩

variable {fits} in
/-- Every complete run of the benchmark, on whatever store behaves as a finite map, ends in
that outcome.
-/
theorem finished_outcome (name : BenchmarkName) (laws : kv.MapLaws fits holds) {n : Nat}
    {store : Store} {contents : Contents} (initial : holds store contents)
    {s : System (name.method flags bm kv) n}
    (reachable : Reachable System.step (System.init (name.method flags bm kv) n store) s)
    (finished : s.Finished)
    : holds s.store (name.outcome fits bm flags n contents).1
      ∧ s.reports = (name.outcome fits bm flags n contents).2 := by
  revert s
  rw [method_eq_forLoop]
  intro s reachable finished
  obtain ⟨left, reports⟩ :=
    forLoop_finished (name.loop_acts bm flags laws) initial reachable finished
  obtain ⟨count, seq, enter, leave⟩ := name.loop_around fits bm flags kv
  have keys := soloKeys_congr flags bm (fun key => name.cost fits bm key contents) enter seq
  have locals := soloState_congr flags bm (fun key => name.cost fits bm key contents) enter seq
  simp only [keys, count] at left
  simp only [locals, count, leave] at reports
  exact ⟨left, reports⟩

end BenchmarkName

/-- The first benchmark of a complete run has its outcome, and the others start from the
store it leaves.
-/
theorem runAll_cons {fits : Nat → Bool} {flags : Flags} {name : BenchmarkName}
    {schedule : List Action} {rest : List (BenchmarkName × List Action)} {store : Contents}
    {ended : List (Contents × List Report)}
    (ran : runAll fits flags ((name, schedule) :: rest) store = some ended)
    : let outcome := name.outcome fits (.reset flags) flags flags.threads.toNat
        (if name.freshDb then ∅ else store)
      ∃ tail, ended = outcome :: tail ∧ runAll fits flags rest outcome.1 = some tail := by
  obtain ⟨first, once, remaining⟩ := Option.bind_eq_some_iff.mp ran
  obtain ⟨_, s, reachable, finished, rfl⟩ := runBenchmark_eq_some once
  obtain ⟨tail, ranRest, rfl⟩ := Option.map_eq_some_iff.mp remaining
  have outcome : (s.store, s.reports)
      = name.outcome fits (.reset flags) flags flags.threads.toNat
          (if name.freshDb then ∅ else store) :=
    Prod.ext_iff.mpr (name.finished_outcome _ flags (mapKV_mapLaws fits) rfl reachable finished)
  rw [outcome] at ranRest ⊢
  exact ⟨tail, rfl, ranRest⟩

/-- Two complete runs of one list of benchmarks have the same outcomes, by induction on the
list.
-/
theorem runAll_unique (fits : Nat → Bool) (flags : Flags)
    {first second : List (BenchmarkName × List Action)} {store : Contents}
    {ended other : List (Contents × List Report)}
    (names : first.map Prod.fst = second.map Prod.fst)
    (ran : runAll fits flags first store = some ended)
    (reran : runAll fits flags second store = some other)
    : ended = other := by
  induction first generalizing second store ended other with
  | nil =>
      cases second with
      | nil => exact Option.some.inj (ran.symm.trans reran)
      | cons => cases names
  | cons head rest ih =>
      cases second with
      | nil => cases names
      | cons step later =>
          obtain ⟨name, schedule⟩ := head
          obtain ⟨again, reschedule⟩ := step
          simp only [List.map_cons, List.cons.injEq] at names
          obtain ⟨rfl, names⟩ := names
          obtain ⟨tail, rfl, ranRest⟩ := runAll_cons ran
          obtain ⟨otherTail, rfl, reranRest⟩ := runAll_cons reran
          rw [ih names ranRest reranRest]

-----------------------------------------------------------------------------------------
-- Ending does not depend on the interleaving
-----------------------------------------------------------------------------------------

section Ending

variable {Store : Type} {flags : Flags} {bm : Benchmark} {body : LoopBody Store} {n : Nat}

/-- What a thread's progress shows: it has allocated its key, and its calls can succeed. -/
def Shows (phases : Fin n → Phase (forLoop flags bm body)) (_ : Store) : Prop :=
  ∀ i, (phases i ≠ .waiting → 0 ≤ bm.keySize)
    ∧ (0 < progressOf flags bm body (phases i)
        → ∃ key store, (body.operation key store).isSome = true)

theorem forLoop_shows : (forLoop flags bm body).Keeps n Shows where
  begins {phases store i now} shows waiting entered := by
    intro j
    by_cases here : j = i
    · subst here
      simp only [forLoop, allocateKey] at entered
      split at entered
      · cases entered
      · next size =>
        cases Option.some.inj entered
        rw [Function.update_self]
        exact ⟨fun _ => Int.not_lt.mp size, fun moved => absurd moved (Nat.lt_irrefl 0)⟩
    · simpa [here] using shows j
  continues {phases store after i now next shared} shows running stepped := by
    obtain ⟨_, bytes, found, called, _⟩ := forLoop_continues stepped
    intro j
    by_cases here : j = i
    · subst here
      have begun : phases j ≠ .waiting := by simp [running]
      rw [Function.update_self]
      exact ⟨fun _ => (shows j).1 begun, fun _ => ⟨_, _, by rw [called]; rfl⟩⟩
    · simpa [here] using shows j
  returns {phases store after i now thread shared} shows running stepped := by
    obtain ⟨done, _, _⟩ := forLoop_returns stepped
    intro j
    by_cases here : j = i
    · subst here
      have begun : phases j ≠ .waiting := by simp [running]
      have moved : progressOf flags bm body (phases j) = LoopState.i now := by
        rw [running]
        rfl
      rw [Function.update_self]
      refine ⟨fun _ => (shows j).1 begun, fun some => (shows j).2 ?_⟩
      have counted : 0 < body.count.toNat := some
      omega
    · simpa [here] using shows j

/-- A complete run of at least one thread shows that keys can be allocated and, when the
loop has an iteration, that its calls can succeed.
-/
theorem shows_of_finished {store : Store} {s : System (forLoop flags bm body) n}
    (some : 0 < n)
    (reachable : Reachable System.step (System.init (forLoop flags bm body) n store) s)
    (finished : s.Finished)
    : 0 ≤ bm.keySize
      ∧ (0 < body.count.toNat → ∃ key store, (body.operation key store).isSome = true) := by
  have initial : Shows (fun _ : Fin n => (.waiting : Phase (forLoop flags bm body))) store := by
    intro i
    exact ⟨fun begun => absurd rfl begun, fun moved => absurd moved (Nat.lt_irrefl 0)⟩
  have shows := forLoop_shows.of_reachable initial reachable
  obtain ⟨threads, returned, _⟩ := finished.returned (.of_reachable reachable)
  obtain ⟨entered, called⟩ := shows ⟨0, some⟩
  rw [returned] at entered called
  exact ⟨entered (by simp), called⟩

/-- Without threads every run completes. -/
theorem completes_without_threads (store : Store) : (forLoop flags bm body).Completes 0 store := by
  have safe : (forLoop flags bm body).Safe 0 (fun _ _ => True) :=
    ⟨⟨fun _ _ _ => trivial, fun _ _ _ => trivial, fun _ _ _ => trivial⟩,
      fun i => i.elim0, fun {_ _ i _} _ _ _ => i.elim0⟩
  exact safe.completes (forLoop_ranked flags bm body) trivial

end Ending

namespace BenchmarkName

variable {fits : Nat → Bool} {bm : Benchmark} {flags : Flags} {Store : Type} {kv : KV Store}
  {holds : Store → Contents → Prop}

/-- The benchmark completes when keys can be allocated, the flag is not zero and no call ends
the process.
-/
theorem completes (name : BenchmarkName) (laws : kv.MapLaws fits holds)
    (keySize : 0 ≤ bm.keySize) (nonzero : toUInt32 flags.num ≠ 0)
    (calls : ∀ key store contents, holds store contents
      → ((name.loop flags bm kv).operation key store).isSome = true)
    (n : Nat) {store : Store} {contents : Contents} (initial : holds store contents)
    : (name.method flags bm kv).Completes n store := by
  rw [method_eq_forLoop]
  exact forLoop_completes (name.loop_acts bm flags laws) keySize (.inr nonzero) calls initial

/-- The calls of a benchmark succeed on every store when a call of its first iteration can.
-/
theorem calls_of_one (name : BenchmarkName) (positive : 0 < bm.num)
    (one : 0 < (name.loop flags bm (mapKV fits)).count.toNat
      → ∃ key store, ((name.loop flags bm (mapKV fits)).operation key store).isSome = true)
    (key : Bytes) (store : Contents)
    : ((name.loop flags bm (mapKV fits)).operation key store).isSome = true := by
  cases name with
  | fillseq | fillrandom | overwrite =>
      obtain ⟨_, _, called⟩ := one (Int.pos_iff_toNat_pos.mp positive)
      have laws := mapKV_mapLaws fits
      exact (writeLoop_isSome_iff flags bm laws _ _ rfl).mpr
        ((writeLoop_isSome_iff flags bm laws _ _ rfl).mp called)
  | readseq | readrandom | readmissing | deleteseq | deleterandom => rfl

/-- With a non-negative value size the calls of every benchmark succeed. -/
theorem calls_of_valueSize (name : BenchmarkName) (laws : kv.MapLaws fits holds)
    (size : 0 ≤ bm.valueSize) (key : Bytes) (store : Store) (contents : Contents)
    (live : holds store contents)
    : ((name.loop flags bm kv).operation key store).isSome = true := by
  cases name with
  | fillseq | fillrandom | overwrite =>
      exact (writeLoop_isSome_iff flags bm laws _ _ live).mpr size
  | readseq | readrandom | readmissing | deleteseq | deleterandom => rfl

/-- When one run of a benchmark ends, every run of it completes. -/
theorem completes_of_finished (name : BenchmarkName) (positive : 0 < bm.num)
    (nonzero : toUInt32 flags.num ≠ 0) {n : Nat} {store : Contents}
    {s : System (name.method flags bm (mapKV fits)) n}
    (reachable : Reachable System.step
      (System.init (name.method flags bm (mapKV fits)) n store) s)
    (finished : s.Finished)
    : (name.method flags bm (mapKV fits)).Completes n store := by
  cases n with
  | zero =>
      rw [method_eq_forLoop]
      exact completes_without_threads store
  | succ n =>
      have shown : 0 ≤ bm.keySize
          ∧ (0 < (name.loop flags bm (mapKV fits)).count.toNat
            → ∃ key store, ((name.loop flags bm (mapKV fits)).operation key store).isSome
              = true) := by
        revert s
        rw [method_eq_forLoop]
        intro s reachable finished
        exact shows_of_finished (Nat.succ_pos n) reachable finished
      exact name.completes (mapKV_mapLaws fits) shown.1 nonzero
        (fun key store _ _ => name.calls_of_one positive shown.2 key store) (n + 1) rfl

end BenchmarkName

/-- Schedule independence, for a positive `--num` in the range of `int`: complete runs of
one list of benchmarks agree in the contents after each benchmark and in every thread's
report; when one run of a benchmark ends all of them do; and with sizes that are not
negative they do.
-/
theorem graded_benchmarks_schedule_independent (fits : Nat → Bool) (flags : Flags)
    (positive : 0 < flags.num) (int : flags.num < 2 ^ 31)
    : (∀ (store : Contents) (first second : List (BenchmarkName × List Action)) ended other,
        first.map Prod.fst = second.map Prod.fst
        → runAll fits flags first store = some ended
        → runAll fits flags second store = some other
        → ended = other)
      ∧ (∀ (name : BenchmarkName) (store : Contents) s,
          Reachable System.step
            (System.init (name.method flags (.reset flags) (mapKV fits)) flags.threads.toNat
              store) s
          → s.Finished
          → (name.method flags (.reset flags) (mapKV fits)).Completes flags.threads.toNat
              store)
      ∧ (0 ≤ flags.keySize → 0 ≤ flags.valueSize
          → ∀ (name : BenchmarkName) (store : Contents),
              (name.method flags (.reset flags) (mapKV fits)).Completes flags.threads.toNat
                store) := by
  have nonzero : toUInt32 flags.num ≠ 0 := by
    rw [toUInt32]
    omega
  refine ⟨?_, ?_, ?_⟩
  · intro store first second ended other names ran reran
    exact runAll_unique fits flags names ran reran
  · intro name store s reachable finished
    exact name.completes_of_finished positive nonzero reachable finished
  · intro keySize valueSize name store
    exact name.completes (mapKV_mapLaws fits) keySize nonzero
      (name.calls_of_valueSize (mapKV_mapLaws fits) valueSize) _ rfl

/-- Two threads that write a random key each and then read it, one after the other. -/
def writersInTurn : List (BenchmarkName × List Action) :=
  let turns := [.main, .main, .main, .worker 0, .worker 1, .main, .worker 0, .worker 0,
    .worker 0, .worker 0, .worker 0, .worker 0, .worker 1, .worker 1, .worker 1, .worker 1,
    .worker 1, .worker 1, .main, .main, .main, .main]
  [(.fillrandom, turns), (.readrandom, turns)]

/-- The same benchmarks with the threads in lock step. -/
def writersInLockStep : List (BenchmarkName × List Action) :=
  let turns := [.main, .worker 0, .main, .worker 1, .main, .worker 1, .worker 0, .worker 1,
    .worker 0, .worker 1, .worker 0, .worker 1, .worker 0, .worker 1, .worker 0, .worker 1,
    .worker 0, .main, .main, .main, .main]
  [(.fillrandom, turns), (.readrandom, turns)]

/-- Both orders are complete runs, so their outcomes are the same. -/
theorem writers_agree
    : ∃ ended, runAll (· < maxValLen) ⟨1, 1, 2, 1, 1⟩ writersInTurn ∅ = some ended
      ∧ runAll (· < maxValLen) ⟨1, 1, 2, 1, 1⟩ writersInLockStep ∅ = some ended := by
  have inTurn : (runAll (· < maxValLen) ⟨1, 1, 2, 1, 1⟩ writersInTurn ∅).isSome = true := by
    decide
  have inLockStep
      : (runAll (· < maxValLen) ⟨1, 1, 2, 1, 1⟩ writersInLockStep ∅).isSome = true := by
    decide
  obtain ⟨ended, ran⟩ := Option.isSome_iff_exists.mp inTurn
  obtain ⟨other, reran⟩ := Option.isSome_iff_exists.mp inLockStep
  have independent := graded_benchmarks_schedule_independent (· < maxValLen) ⟨1, 1, 2, 1, 1⟩
    (by decide) (by decide)
  have same := independent.1 ∅ writersInTurn writersInLockStep ended other rfl ran reran
  exact ⟨ended, ran, same ▸ reran⟩

-----------------------------------------------------------------------------------------
-- On the wrapper
-----------------------------------------------------------------------------------------

/-- The benchmarks on the wrapper of `bench.cc` refine those on a finite map: on an engine
with the laws of `cmap` and room for every put, every complete run leaves the contents and
prints the counts of the finite map.
-/
theorem wrapper_refines_map {E : Engine} {V : E.View} (laws : E.CmapLaws V)
    (room : V.AlwaysRoom) {state : E.State} {db : E.Db} {path : String} {contents : Contents}
    (live : V.Live state db path contents) (flags : Flags) (name : BenchmarkName)
    {schedule : List Action} {after : E.State} {reports : List Report}
    (ran : runBenchmark flags.threads
      (name.method flags (.reset flags) (wrapperKV E ⟨some db⟩)) schedule state
      = some (after, reports))
    : let outcome := name.outcome (V.fits · maxValLen) (.reset flags) flags
        flags.threads.toNat contents
      V.Live after db path outcome.1 ∧ reports = outcome.2 := by
  obtain ⟨_, s, reachable, finished, same⟩ := runBenchmark_eq_some ran
  obtain ⟨rfl, rfl⟩ := Prod.ext_iff.mp same
  exact name.finished_outcome _ flags (wrapperKV_mapLaws laws room db path) live reachable
    finished

/-- With sizes that are not negative they complete under every interleaving. -/
theorem wrapper_completes {E : Engine} {V : E.View} (laws : E.CmapLaws V)
    (room : V.AlwaysRoom) {state : E.State} {db : E.Db} {path : String} {contents : Contents}
    (live : V.Live state db path contents) (flags : Flags) (keySize : 0 ≤ flags.keySize)
    (valueSize : 0 ≤ flags.valueSize) (nonzero : toUInt32 flags.num ≠ 0)
    (name : BenchmarkName)
    : (name.method flags (.reset flags) (wrapperKV E ⟨some db⟩)).Completes
        flags.threads.toNat state :=
  have map := wrapperKV_mapLaws laws room db path
  name.completes map keySize nonzero (name.calls_of_valueSize map valueSize) _ live

end PMKVLab.Bench
