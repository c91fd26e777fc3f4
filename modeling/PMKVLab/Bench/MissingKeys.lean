import PMKVLab.Bench.RandomKeys

/-! What a reader of missing keys finds. It draws the keys that the other random benchmarks
draw, so which of them it finds is decided by the last benchmarks that touched those keys.
-/

namespace PMKVLab.Bench

open PMKVLab.Library PMKVLab.Store

-----------------------------------------------------------------------------------------
-- The store that the benchmarks before have left
-----------------------------------------------------------------------------------------

/-- The store after a list of benchmarks. -/
def leftBy (start : Contents) : List (Contents × List Report) → Contents
  | [] => start
  | outcome :: later => leftBy outcome.1 later

theorem leftBy_concat (start : Contents) (before : List (Contents × List Report))
    (outcome : Contents × List Report)
    : leftBy start (before ++ [outcome]) = outcome.1 := by
  induction before generalizing start with
  | nil => rfl
  | cons first rest ih => exact ih first.1

/-- The last benchmark of a complete run starts on what the others have left, by induction
on the others.
-/
theorem runAll_concat {fits : Nat → Bool} {flags : Flags}
    {earlier : List (BenchmarkName × List Action)} {name : BenchmarkName}
    {schedule : List Action} {start : Contents} {outcomes : List (Contents × List Report)}
    (ran : runAll fits flags (earlier ++ [(name, schedule)]) start = some outcomes)
    : ∃ before, runAll fits flags earlier start = some before
      ∧ outcomes
        = before ++ [name.outcome fits (.reset flags) flags flags.threads.toNat
            (if name.freshDb then ∅ else leftBy start before)] := by
  induction earlier generalizing start outcomes with
  | nil =>
      obtain ⟨tail, rfl, nothing⟩ := runAll_cons ran
      cases nothing
      exact ⟨[], rfl, rfl⟩
  | cons head rest ih =>
      obtain ⟨first, once, remaining⟩ := Option.bind_eq_some_iff.mp ran
      obtain ⟨tail, ranRest, rfl⟩ := Option.map_eq_some_iff.mp remaining
      obtain ⟨before, ranBefore, rfl⟩ := ih ranRest
      exact ⟨first :: before,
        Option.bind_eq_some_iff.mpr
          ⟨first, once, Option.map_eq_some_iff.mpr ⟨before, ranBefore, rfl⟩⟩,
        rfl⟩

/-- A complete run of some benchmark on some thread has allocated a key. -/
theorem keySize_of_runAll {fits : Nat → Bool} {flags : Flags} {name : BenchmarkName}
    {schedule : List Action} {rest : List (BenchmarkName × List Action)} {start : Contents}
    {outcomes : List (Contents × List Report)} (threads : 0 < flags.threads.toNat)
    (ran : runAll fits flags ((name, schedule) :: rest) start = some outcomes)
    : 0 ≤ flags.keySize := by
  obtain ⟨first, once, _⟩ := Option.bind_eq_some_iff.mp ran
  obtain ⟨_, s, reachable, finished, _⟩ := runBenchmark_eq_some once
  revert s
  rw [name.method_eq_forLoop]
  intro s reachable finished _
  exact (shows_of_finished threads reachable finished).1

-----------------------------------------------------------------------------------------
-- The last benchmarks that touched a key
-----------------------------------------------------------------------------------------

namespace BenchmarkName

/-- The benchmarks that do more than read. -/
def changes : BenchmarkName → Bool
  | .readseq | .readrandom | .readmissing => false
  | _ => true

/-- The benchmarks after which no key that can be drawn is as it was before: a fill starts
with an empty pool, and a sequential benchmark goes through the keys of all numbers below
`FLAGS_num`.
-/
def settles : BenchmarkName → Bool
  | .fillseq | .fillrandom | .deleteseq => true
  | _ => false

end BenchmarkName

/-- The last benchmark of a list among those of a kind. -/
def lastOf (kind : BenchmarkName → Bool) (names : List BenchmarkName) : Option BenchmarkName :=
  (names.filter kind).getLast?

theorem lastOf_concat (kind : BenchmarkName → Bool) (names : List BenchmarkName)
    (name : BenchmarkName)
    : lastOf kind (names ++ [name]) = if kind name then some name else lastOf kind names := by
  unfold lastOf
  cases same : kind name <;> simp [List.filter_append, same]

/-- Whether a key that can be drawn is bound after benchmarks on an empty pool. A key that is
`replayed`, among the first `FLAGS_num` draws of the threads, is touched by every benchmark
that changes the store, and another one only by those that settle all keys.
-/
def BoundAfter (replayed : Bool) (names : List BenchmarkName) : Prop :=
  if replayed then
    lastOf BenchmarkName.changes names ∈ [some .fillseq, some .fillrandom, some .overwrite]
  else lastOf BenchmarkName.settles names = some .fillseq

instance (replayed : Bool) (names : List BenchmarkName)
    : Decidable (BoundAfter replayed names) :=
  inferInstanceAs (Decidable (if replayed then _ else _))

-----------------------------------------------------------------------------------------
-- Keys that can be drawn
-----------------------------------------------------------------------------------------

section Keys

variable {flags : Flags}

/-- The first thread of a sequential loop goes through all keys that can be drawn. -/
theorem mem_sequential {Store : Type} {body : LoopBody Store} {cost : Bytes → Nat × Nat}
    (seq : body.seq = true) (index : ∀ tid, (body.enter (.make tid)).tid = tid)
    (size : 0 ≤ flags.keySize) (threads : 0 < flags.threads.toNat) (int : flags.num < 2 ^ 31)
    {k : Nat} (less : k < flags.num.toNat)
    : sequentialKey flags.keySize k ∈ together fun i : Fin flags.threads.toNat =>
        soloKeys flags (.reset flags) body cost i flags.num.toNat := by
  have nonneg : 0 ≤ (Benchmark.reset flags).num := by
    change 0 ≤ flags.num
    omega
  have small : k + 0 * (Benchmark.reset flags).num.toNat < 2 ^ 31 := by omega
  have key := soloKey_sequential flags (.reset flags) body cost size seq 0 k (index 0) nonneg small
  rw [Nat.zero_mul, Nat.add_zero] at key
  rw [mem_together]
  exact ⟨⟨0, threads⟩, List.mem_map.mpr ⟨k, List.mem_range.mpr less, key⟩⟩

variable (fits : Nat → Bool)

/-- A sequential benchmark goes through all keys that can be drawn. -/
theorem BenchmarkName.mem_sequential_keys (size : 0 ≤ flags.keySize)
    (threads : 0 < flags.threads.toNat) (int : flags.num < 2 ^ 31) {k : Nat}
    (less : k < flags.num.toNat) {name : BenchmarkName}
    (sequential : name = .fillseq ∨ name = .deleteseq) (store : Contents)
    : sequentialKey flags.keySize k ∈ together fun i : Fin flags.threads.toNat =>
        soloKeys flags (.reset flags) (name.loop flags (.reset flags) (mapKV fits))
          (fun key => name.cost fits (.reset flags) key store) i flags.num.toNat := by
  refine mem_sequential ?_ (fun tid => ?_) size threads int less
  · rcases sequential with rfl | rfl <;> rfl
  · rcases sequential with rfl | rfl
    · simp [BenchmarkName.loop, writeLoop, Benchmark.reset, ThreadState.make]
    · rfl

/-- The random benchmarks that put bind the first `FLAGS_num` draws of each thread. -/
theorem BenchmarkName.random_fill {name : BenchmarkName}
    (puts : name = .fillrandom ∨ name = .overwrite) (store : Contents)
    : (name.outcome fits (.reset flags) flags flags.threads.toNat store).1
      = fill (writtenValue (.reset flags)) (drawnKeys flags flags.num.toNat) store := by
  rcases puts with rfl | rfl
  · exact random_contents fits flags rfl store
  · exact random_contents fits flags rfl store

/-- What a benchmark leaves under a key that can be drawn. -/
theorem BenchmarkName.lookup_outcome (size : 0 ≤ flags.keySize)
    (threads : 0 < flags.threads.toNat) (int : flags.num < 2 ^ 31) {k : Nat}
    (less : k < flags.num.toNat) (name : BenchmarkName) (store : Contents)
    : (name.outcome fits (.reset flags) flags flags.threads.toNat store).1.lookup
        (sequentialKey flags.keySize k)
      = match name with
        | .fillseq => some (writtenValue (.reset flags))
        | .deleteseq => none
        | .fillrandom | .overwrite =>
            if sequentialKey flags.keySize k ∈ drawnKeys flags flags.num.toNat then
              some (writtenValue (.reset flags))
            else store.lookup (sequentialKey flags.keySize k)
        | .deleterandom =>
            if sequentialKey flags.keySize k ∈ drawnKeys flags flags.num.toNat then none
            else store.lookup (sequentialKey flags.keySize k)
        | .readseq | .readrandom | .readmissing =>
            store.lookup (sequentialKey flags.keySize k) := by
  cases name with
  | fillseq =>
      have listed := mem_sequential_keys fits size threads int less (.inl rfl) store
      exact (lookup_fill _ _ _ _).trans (if_pos listed)
  | deleteseq =>
      have listed := mem_sequential_keys fits size threads int less (.inr rfl) store
      exact (lookup_drain _ _ _).trans (if_pos listed)
  | fillrandom =>
      rw [random_fill fits (.inl rfl) store, lookup_fill]
      congr
  | overwrite =>
      rw [random_fill fits (.inr rfl) store, lookup_fill]
      congr
  | deleterandom =>
      have drained : (BenchmarkName.deleterandom.outcome fits (.reset flags) flags
            flags.threads.toNat store).1
          = drain (drawnKeys flags flags.num.toNat) store :=
        BenchmarkName.random_contents fits flags rfl store
      rw [drained, lookup_drain]
      congr
  | readseq | readrandom | readmissing => exact congrArg _ (perform_idle _ _)

/-- After benchmarks on an empty pool a key that can be drawn is bound to the written value or
not at all, as its last benchmarks have it; by induction from the last benchmark back.
-/
theorem lookup_leftBy (size : 0 ≤ flags.keySize) (threads : 0 < flags.threads.toNat)
    (int : flags.num < 2 ^ 31) {k : Nat} (less : k < flags.num.toNat)
    {earlier : List (BenchmarkName × List Action)} {before : List (Contents × List Report)}
    (ran : runAll fits flags earlier ∅ = some before)
    : (leftBy ∅ before).lookup (sequentialKey flags.keySize k)
      = if BoundAfter (decide (sequentialKey flags.keySize k ∈ drawnKeys flags flags.num.toNat))
            (earlier.map Prod.fst) then
          some (writtenValue (.reset flags))
        else none := by
  induction earlier using List.reverseRecOn generalizing before with
  | nil =>
      cases ran
      simp [leftBy, BoundAfter, lastOf]
  | append_singleton earlier last ih =>
      obtain ⟨name, schedule⟩ := last
      obtain ⟨front, ranFront, rfl⟩ := runAll_concat ran
      rw [leftBy_concat, BenchmarkName.lookup_outcome fits size threads int less,
        List.map_append]
      have old := ih ranFront
      unfold BoundAfter at old ⊢
      by_cases replayed : sequentialKey flags.keySize k ∈ drawnKeys flags flags.num.toNat
      · cases name <;>
          simp_all [lastOf_concat, BenchmarkName.changes, BenchmarkName.freshDb]
      · cases name <;>
          simp_all [lastOf_concat, BenchmarkName.settles, BenchmarkName.freshDb]

end Keys

-----------------------------------------------------------------------------------------
-- Reading missing keys
-----------------------------------------------------------------------------------------

/-- All threads report nothing found exactly when none of the drawn keys is readable. -/
theorem readmissing_messages_iff (fits : Nat → Bool) (flags : Flags) (store : Contents)
    : (∀ report ∈ (BenchmarkName.readmissing.outcome fits (.reset flags) flags
          flags.threads.toNat store).2,
        report.message = foundMessage 0 (Benchmark.reset flags).reads)
      ↔ ∀ tid < flags.threads.toNat, ∀ j < (Benchmark.reset flags).reads.toNat,
          ¬ Readable fits store (drawnKey flags tid j) := by
  have listed (reports : List Report)
      : (∀ report ∈ reports, report.message = foundMessage 0 (Benchmark.reset flags).reads)
        ↔ ∀ message ∈ reports.map Report.message,
            message = foundMessage 0 (Benchmark.reset flags).reads := by
    simp
  rw [listed, read_messages fits flags (.inr rfl) store]
  simp only [List.forall_mem_map, List.mem_finRange, forall_const, foundMessage_inj,
    hits_eq_zero_iff, Fin.forall_iff]

/-- The benchmarks leave none of the keys bound that `readmissing` draws: the last of them
that changed the store deleted, and it was not `deleterandom` over a sequential fill unless
every drawn key is among the first `FLAGS_num` draws, which are those that it deletes.
-/
def LeavesMissing (flags : Flags) (names : List BenchmarkName) : Prop :=
  lastOf BenchmarkName.changes names ∈ [none, some .deleteseq, some .deleterandom]
  ∧ (lastOf BenchmarkName.settles names = some .fillseq
    → ∀ tid < flags.threads.toNat, ∀ j < (Benchmark.reset flags).reads.toNat,
        drawnKey flags tid j ∈ drawnKeys flags flags.num.toNat)

/-- The last benchmark that changed the store, by what it does. -/
theorem lastOf_changes_mem (names : List BenchmarkName)
    : lastOf BenchmarkName.changes names ∈ [none, some .deleteseq, some .deleterandom]
      ↔ ¬ lastOf BenchmarkName.changes names
          ∈ [some .fillseq, some .fillrandom, some .overwrite] := by
  cases last : lastOf BenchmarkName.changes names with
  | none => simp
  | some name =>
      have kind : name.changes = true := by
        have member := List.mem_of_getLast? last
        exact (List.mem_filter.mp member).2
      cases name <;> simp_all [BenchmarkName.changes]

/-- No drawn key is bound exactly when the benchmarks leave all of them missing, for threads
that draw at least one.
-/
theorem leavesMissing_iff {flags : Flags} (positive : 0 < flags.num)
    (threads : 0 < flags.threads.toNat) (reads : 0 < (Benchmark.reset flags).reads.toNat)
    (names : List BenchmarkName)
    : (∀ tid < flags.threads.toNat, ∀ j < (Benchmark.reset flags).reads.toNat,
        ¬ BoundAfter (decide (drawnKey flags tid j ∈ drawnKeys flags flags.num.toNat)) names)
      ↔ LeavesMissing flags names := by
  unfold BoundAfter LeavesMissing
  rw [lastOf_changes_mem]
  constructor
  · intro unbound
    refine ⟨?_, fun filled tid thread j draw => ?_⟩
    · -- the first draw of the first thread is among the first `FLAGS_num`
      have first : drawnKey flags 0 0 ∈ drawnKeys flags flags.num.toNat :=
        mem_drawnKeys.mpr ⟨0, threads, 0, by omega, rfl⟩
      simpa [first] using unbound 0 threads 0 reads
    · by_contra new
      exact unbound tid thread j draw (by simpa [new] using filled)
  · rintro ⟨deleted, settled⟩ tid thread j draw
    by_cases replayed : drawnKey flags tid j ∈ drawnKeys flags flags.num.toNat
    · simpa [replayed] using deleted
    · have other : ¬ lastOf BenchmarkName.settles names = some .fillseq :=
        fun filled => replayed (settled filled tid thread j draw)
      simpa [replayed] using other

/-- A reader of missing keys draws the keys that all random benchmarks draw. After any list of
benchmarks on an empty pool, all of its threads report nothing found exactly when the written
values do not fit the reader's buffer, nothing is read, or the last benchmark that changed the
store deleted every key that is drawn.
-/
theorem readmissing_reports_none_iff (fits : Nat → Bool) (flags : Flags)
    (positive : 0 < flags.num) (int : flags.num < 2 ^ 31)
    (earlier : List (BenchmarkName × List Action)) {schedule : List Action}
    {outcomes : List (Contents × List Report)}
    (ran : runAll fits flags (earlier ++ [(.readmissing, schedule)]) ∅ = some outcomes)
    : ∃ before store reports,
        outcomes = before ++ [(store, reports)]
        ∧ ((∀ report ∈ reports, report.message = foundMessage 0 (Benchmark.reset flags).reads)
            ↔ fits flags.valueSize.toNat = false ∨ flags.threads ≤ 0 ∨ flags.reads = 0
              ∨ LeavesMissing flags (earlier.map Prod.fst)) := by
  obtain ⟨before, ranBefore, rfl⟩ := runAll_concat ran
  refine ⟨before, _, _, rfl, (readmissing_messages_iff fits flags (leftBy ∅ before)).trans ?_⟩
  by_cases noThreads : flags.threads ≤ 0
  · have none : flags.threads.toNat = 0 := by omega
    simp [none, noThreads]
  by_cases noReads : flags.reads = 0
  · have none : (Benchmark.reset flags).reads.toNat = 0 := by simp [Benchmark.reset, noReads]
    simp [none, noReads]
  have threads : 0 < flags.threads.toNat := by omega
  have reads : 0 < (Benchmark.reset flags).reads.toNat := by
    simp only [Benchmark.reset]
    split <;> omega
  have size : 0 ≤ flags.keySize := by
    cases earlier with
    | nil => exact keySize_of_runAll threads ran
    | cons => exact keySize_of_runAll threads ran
  have readable (tid j : Nat)
      : Readable fits (leftBy ∅ before) (drawnKey flags tid j)
        ↔ BoundAfter (decide (drawnKey flags tid j ∈ drawnKeys flags flags.num.toNat))
            (earlier.map Prod.fst)
          ∧ fits flags.valueSize.toNat = true := by
    obtain ⟨k, less, same⟩ := drawnKey_drawable size positive int tid j
    have length : (writtenValue (.reset flags)).length = flags.valueSize.toNat :=
      List.length_replicate
    rw [Readable, same, lookup_leftBy fits size threads int less ranBefore]
    split
    · next bound => simp [bound, length]
    · next unbound => simp [unbound]
  simp only [readable, noThreads, noReads, false_or]
  rw [← leavesMissing_iff positive threads reads]
  cases fit : fits flags.valueSize.toNat <;> simp

/-- Once the keys of a random fill are deleted, the reader of missing keys finds nothing. -/
theorem readmissing_after_deleterandom
    : ∃ before store reports,
        runAll (· < maxValLen) ⟨2, 2, 2, 1, 1⟩
            [(.fillrandom, twoThreads), (.deleterandom, twoThreads), (.readmissing, twoThreads)] ∅
          = some (before ++ [(store, reports)])
        ∧ ∀ report ∈ reports, report.message = "(0 of 2 found)" := by
  have complete : (runAll (· < maxValLen) ⟨2, 2, 2, 1, 1⟩
      [(.fillrandom, twoThreads), (.deleterandom, twoThreads), (.readmissing, twoThreads)]
      ∅).isSome = true := by
    decide +kernel
  obtain ⟨outcomes, ran⟩ := Option.isSome_iff_exists.mp complete
  obtain ⟨before, store, reports, rfl, condition⟩ :=
    readmissing_reports_none_iff (· < maxValLen) ⟨2, 2, 2, 1, 1⟩ (by decide) (by decide)
      [(.fillrandom, twoThreads), (.deleterandom, twoThreads)] ran
  refine ⟨before, store, reports, ran, condition.mpr (.inr (.inr (.inr ⟨by decide, ?_⟩)))⟩
  intro filled
  cases filled

/-- The reader of missing keys finds the keys that a random fill has just written. -/
theorem readmissing_finds_filled_keys
    : (runAll (· < maxValLen) ⟨2, 2, 2, 1, 1⟩
          [(.fillrandom, twoThreads), (.readmissing, twoThreads)] ∅).map
        (·.map fun outcome => outcome.2.map Report.message)
      = some [["", ""], ["(2 of 2 found)", "(2 of 2 found)"]] := by
  decide +kernel

end PMKVLab.Bench
