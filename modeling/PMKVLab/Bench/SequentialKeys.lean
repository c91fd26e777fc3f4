import PMKVLab.Bench.Keys
import PMKVLab.Bench.ScheduleIndependence

/-! The sequential benchmarks: thread `tid` works on the keys of `tid * num` up to
`(tid + 1) * num`, so the threads partition the key space.
-/

namespace PMKVLab.Bench

open PMKVLab.Library PMKVLab.Store

-----------------------------------------------------------------------------------------
-- A thread alone
-----------------------------------------------------------------------------------------

section Solo

variable {Store : Type} (flags : Flags) (bm : Benchmark) (body : LoopBody Store)
  (cost : Bytes → Nat × Nat)

/-- A thread keeps its index and all of its statistics but the number of finished
operations, by induction on the iterations.
-/
theorem soloState_thread (tid j : Nat)
    : let l := soloState flags bm body cost tid j
      let entered := body.enter (.make tid)
      l.thread.tid = entered.tid
      ∧ l.thread.stats = { entered.stats with done := entered.stats.done + j } := by
  induction j with
  | zero => simp [soloState]
  | succ j ih =>
      obtain ⟨index, stats⟩ := ih
      obtain ⟨sameIndex, sameStats⟩ :=
        nextKey_thread flags bm body.seq (soloState flags bm body cost tid j)
      refine ⟨sameIndex.trans index, ?_⟩
      have counted : (soloState flags bm body cost tid (j + 1)).thread.stats
          = (nextKey flags bm body.seq
              (soloState flags bm body cost tid j)).2.stats.finishedSingleOp :=
        rfl
      rw [counted, sameStats, stats]
      rfl

/-- Every key fills the buffer, by induction on the iterations. -/
theorem soloState_key_length (size : 0 ≤ bm.keySize) (tid j : Nat)
    : (soloState flags bm body cost tid j).key.length = bm.keySize.toNat := by
  induction j with
  | zero => simp [soloState]
  | succ j ih => exact generateKeyFromInt_length size _ ih

/-- A constant cost adds up, by induction on the iterations. -/
theorem soloState_counts {bytes found : Nat} (tid j : Nat)
    (constant : ∀ earlier < j,
      cost (soloKey flags bm body cost tid earlier) = (bytes, found))
    : (soloState flags bm body cost tid j).bytes = j * bytes
      ∧ (soloState flags bm body cost tid j).found = j * found := by
  induction j with
  | zero => simp [soloState]
  | succ j ih =>
      obtain ⟨sum, hits⟩ := ih (fun earlier less => constant earlier (by omega))
      have last := constant j (by omega)
      have added : (soloState flags bm body cost tid (j + 1)).bytes
            = (soloState flags bm body cost tid j).bytes
              + (cost (soloKey flags bm body cost tid j)).1
          ∧ (soloState flags bm body cost tid (j + 1)).found
            = (soloState flags bm body cost tid j).found
              + (cost (soloKey flags bm body cost tid j)).2 :=
        ⟨rfl, rfl⟩
      rw [added.1, added.2, sum, hits, last, Nat.succ_mul, Nat.succ_mul]
      exact ⟨rfl, rfl⟩

/-- The key of an index, on a fresh buffer. -/
def sequentialKey (keySize : Int) (k : Nat) : Bytes :=
  generateKeyFromInt keySize k (List.replicate keySize.toNat 0)

/-- Non-negative 31-bit numbers survive the conversions. -/
theorem toUInt64_toInt32 {k : Nat} (small : k < 2 ^ 31) : toUInt64 (toInt32 k) = k := by
  have kept : toInt32 k = k := Int.bmod_eq_of_le (by omega) (by omega)
  rw [kept, toUInt64]
  omega

/-- In a sequential loop iteration `j` of thread `tid` uses the key of `j + tid * num`. -/
theorem soloKey_sequential (size : 0 ≤ bm.keySize) (seq : body.seq = true) (tid j : Nat)
    (index : (body.enter (.make tid)).tid = tid) (num : 0 ≤ bm.num)
    (small : j + tid * bm.num.toNat < 2 ^ 31)
    : soloKey flags bm body cost tid j
      = sequentialKey bm.keySize (j + tid * bm.num.toNat) := by
  obtain ⟨sameIndex, _⟩ := soloState_thread flags bm body cost tid j
  have length := soloState_key_length flags bm body cost size tid j
  have position : ((j : Int) + tid * bm.num) = ((j + tid * bm.num.toNat : Nat) : Int) := by
    push_cast
    rw [Int.toNat_of_nonneg num]
  have drawn : (nextKey flags bm true (soloState flags bm body cost tid j)).1
      = generateKeyFromInt bm.keySize (j + tid * bm.num.toNat)
          (soloState flags bm body cost tid j).key := by
    simp only [nextKey, keyIndex, if_true, sameIndex, index, soloState_i, position,
      toUInt64_toInt32 small]
  rw [soloKey, seq, drawn, sequentialKey, generateKeyFromInt_eq size _ length,
    generateKeyFromInt_eq size _ List.length_replicate]

end Solo

-----------------------------------------------------------------------------------------
-- All threads together
-----------------------------------------------------------------------------------------

/-- The flags for which the sequential benchmarks partition the key space: indices stay in
the range of `int`, and different indices have different keys.
-/
structure SequentialFlags (flags : Flags) : Prop where
  threads : 1 ≤ flags.threads
  reads : 0 ≤ flags.reads
  within : flags.reads ≤ flags.num
  valueSize : 0 ≤ flags.valueSize
  shortValue : flags.valueSize < maxValLen
  keySize : 0 ≤ flags.keySize
  indices : flags.threads * flags.num ≤ 2 ^ 31
  distinct : flags.threads * flags.num ≤ 256 ^ (min flags.keySize 8).toNat

/-- The number of keys the threads work on. -/
def totalKeys (flags : Flags) : Nat := flags.threads.toNat * flags.num.toNat

/-- The store holds exactly the keys of the indices below `threads * num`, each with the
value all benchmarks write.
-/
structure HoldsSequence (flags : Flags) (store : Contents) : Prop where
  size : store.keys.card = totalKeys flags
  bound : ∀ k < totalKeys flags, store.lookup (sequentialKey flags.keySize k)
    = some (List.replicate flags.valueSize.toNat 88)
  only : ∀ key ∈ store, ∃ k < totalKeys flags, key = sequentialKey flags.keySize k

/-- What a read loop prints for the locals it ends with. -/
theorem readLoop_report {Store : Type} (bm : Benchmark) (kv : KV Store) (seq missing : Bool)
    {l : LoopState} {done : Nat} (stats : l.thread.stats = ⟨done, 0, ""⟩)
    : ((readLoop bm kv seq missing).leave l).stats.report
      = ⟨if done < 1 then 1 else done, l.bytes,
          "(" ++ toString l.found ++ " of " ++ toString bm.reads ++ " found)"⟩ := by
  simp only [readLoop, Stats.addBytes, Stats.addMessage, Stats.report, stats,
    Stats.appendWithSpace_empty, Nat.zero_add]

/-- What every thread prints after a sequential read that finds all of its keys. -/
def allFound (flags : Flags) : Report where
  ops := if flags.reads.toNat < 1 then 1 else flags.reads.toNat
  bytes := flags.reads.toNat * (flags.keySize.toNat + flags.valueSize.toNat)
  message := "(" ++ toString flags.reads ++ " of " ++ toString flags.reads ++ " found)"

namespace SequentialFlags

variable {flags : Flags}

theorem num_nonneg (valid : SequentialFlags flags) : 0 ≤ flags.num :=
  Int.le_trans valid.reads valid.within

/-- Indices stay below 2^31 and below the number of distinct keys. -/
theorem totalKeys_le (valid : SequentialFlags flags)
    : totalKeys flags ≤ 2 ^ 31 ∧ totalKeys flags ≤ 256 ^ indexBytes flags.keySize := by
  have product : ((totalKeys flags : Nat) : Int) = flags.threads * flags.num := by
    have threads := valid.threads
    rw [totalKeys, Nat.cast_mul, Int.toNat_of_nonneg (by omega),
      Int.toNat_of_nonneg valid.num_nonneg]
  have indices := valid.indices
  have distinct := valid.distinct
  rw [← product] at indices distinct
  exact ⟨by omega, by exact_mod_cast distinct⟩

/-- Different indices have different keys. -/
theorem sequentialKey_injective (valid : SequentialFlags flags) {k other : Nat}
    (less : k < totalKeys flags) (otherLess : other < totalKeys flags)
    (same : sequentialKey flags.keySize k = sequentialKey flags.keySize other)
    : k = other := by
  have few := valid.totalKeys_le.2
  have equal := (generateKeyFromInt_eq_iff valid.keySize k other List.length_replicate
    List.length_replicate).mp same
  rwa [Nat.mod_eq_of_lt (by omega), Nat.mod_eq_of_lt (by omega)] at equal

/-- An index below the total is an iteration of a thread. -/
theorem index_split {k : Nat} (less : k < totalKeys flags)
    : ∃ tid < flags.threads.toNat, ∃ j < flags.num.toNat, k = j + tid * flags.num.toNat := by
  have positive : 0 < flags.num.toNat := by
    by_contra none
    have zero : flags.num.toNat = 0 := by omega
    simp [totalKeys, zero] at less
  refine ⟨k / flags.num.toNat, (Nat.div_lt_iff_lt_mul positive).mpr less,
    k % flags.num.toNat, Nat.mod_lt k positive, ?_⟩
  have split := Nat.mod_add_div k flags.num.toNat
  rw [Nat.mul_comm] at split
  exact split.symm

/-- An iteration of a thread is an index below the total. -/
theorem index_lt {tid j : Nat} (thread : tid < flags.threads.toNat)
    (iteration : j < flags.num.toNat)
    : j + tid * flags.num.toNat < totalKeys flags := by
  have next : (tid + 1) * flags.num.toNat ≤ totalKeys flags :=
    Nat.mul_le_mul_right _ thread
  rw [Nat.add_mul, Nat.one_mul] at next
  omega

variable {body : LoopBody Contents} {cost : Bytes → Nat × Nat}

/-- The keys of a sequential loop. -/
theorem soloKey_eq (valid : SequentialFlags flags) (seq : body.seq = true)
    (index : ∀ tid, (body.enter (.make tid)).tid = tid) {tid j : Nat}
    (thread : tid < flags.threads.toNat) (iteration : j < flags.num.toNat)
    : soloKey flags (.reset flags) body cost tid j
      = sequentialKey flags.keySize (j + tid * flags.num.toNat) := by
  have less := index_lt thread iteration
  have small := valid.totalKeys_le.1
  exact soloKey_sequential flags (.reset flags) body cost valid.keySize seq tid j (index tid)
    valid.num_nonneg (Nat.lt_of_lt_of_le less small)

/-- All threads of a sequential loop together use every key once. -/
theorem mem_together_iff (valid : SequentialFlags flags) (seq : body.seq = true)
    (index : ∀ tid, (body.enter (.make tid)).tid = tid) {key : Bytes}
    : key ∈ together (fun i : Fin flags.threads.toNat =>
        soloKeys flags (.reset flags) body cost i flags.num.toNat)
      ↔ ∃ k < totalKeys flags, key = sequentialKey flags.keySize k := by
  rw [mem_together]
  constructor
  · intro listed
    obtain ⟨i, member⟩ := listed
    obtain ⟨j, iteration, rfl⟩ := List.mem_map.mp member
    rw [List.mem_range] at iteration
    exact ⟨j + i * flags.num.toNat, index_lt i.isLt iteration,
      valid.soloKey_eq seq index i.isLt iteration⟩
  · intro indexed
    obtain ⟨k, less, rfl⟩ := indexed
    obtain ⟨tid, thread, j, iteration, rfl⟩ := index_split less
    refine ⟨⟨tid, thread⟩, List.mem_map.mpr ⟨j, List.mem_range.mpr iteration, ?_⟩⟩
    exact valid.soloKey_eq seq index thread iteration

/-- A sequential fill of an empty store. Witness: a lookup after the fill asks whether the
key is listed, and the listed keys are those of the indices.
-/
theorem fillseq_holdsSequence (valid : SequentialFlags flags) (fits : Nat → Bool)
    : HoldsSequence flags
        (BenchmarkName.fillseq.outcome fits (.reset flags) flags flags.threads.toNat ∅).1 := by
  let bm := Benchmark.reset flags
  let loop := writeLoop flags bm (mapKV fits) true
  let keys := together (fun i : Fin flags.threads.toNat =>
    soloKeys flags bm loop (fun key => (bm.valueSize.toNat + key.length, 0)) i flags.num.toNat)
  have contents : (BenchmarkName.fillseq.outcome fits (.reset flags) flags
      flags.threads.toNat ∅).1 = fill (writtenValue bm) keys ∅ :=
    rfl
  have index : ∀ tid, (loop.enter (.make tid)).tid = tid := by
    intro tid
    simp [loop, writeLoop, bm, Benchmark.reset, ThreadState.make]
  have listed {key : Bytes}
      : key ∈ keys ↔ ∃ k < totalKeys flags, key = sequentialKey flags.keySize k :=
    valid.mem_together_iff rfl index
  have only : ∀ key ∈ fill (writtenValue bm) keys ∅,
      ∃ k < totalKeys flags, key = sequentialKey flags.keySize k := by
    intro key member
    obtain ⟨value, found⟩ := Finmap.mem_iff.mp member
    rw [lookup_fill, Finmap.lookup_empty] at found
    split at found
    · next inList => exact listed.mp inList
    · cases found
  have bound : ∀ k < totalKeys flags,
      (fill (writtenValue bm) keys ∅).lookup (sequentialKey flags.keySize k)
        = some (writtenValue bm) := by
    intro k less
    rw [lookup_fill, if_pos (listed.mpr ⟨k, less, rfl⟩)]
  rw [contents]
  refine ⟨?_, bound, only⟩
  have keySet : (fill (writtenValue bm) keys ∅).keys
      = (Finset.range (totalKeys flags)).image (sequentialKey flags.keySize) := by
    ext key
    rw [Finmap.mem_keys, Finset.mem_image]
    constructor
    · intro member
      obtain ⟨k, less, same⟩ := only key member
      exact ⟨k, Finset.mem_range.mpr less, same.symm⟩
    · intro indexed
      obtain ⟨k, less, rfl⟩ := indexed
      exact Finmap.mem_of_lookup_eq_some (bound k (Finset.mem_range.mp less))
  rw [keySet, Finset.card_image_of_injOn, Finset.card_range]
  intro k less other otherLess same
  exact valid.sequentialKey_injective (by simpa using less) (by simpa using otherLess) same

/-- Reading a key of the filled store is a hit. -/
theorem read_cost (valid : SequentialFlags flags) {fits : Nat → Bool}
    (fitting : ∀ length < maxValLen, fits length = true) {store : Contents}
    (filled : HoldsSequence flags store) {k : Nat} (less : k < totalKeys flags)
    : BenchmarkName.readseq.cost fits (.reset flags) (sequentialKey flags.keySize k) store
      = (flags.valueSize.toNat + flags.keySize.toNat, 1) := by
  have found := filled.bound k less
  have bound := valid.shortValue
  have nonneg := valid.valueSize
  have short : flags.valueSize.toNat < maxValLen := by omega
  have length : (sequentialKey flags.keySize k).length = flags.keySize.toNat :=
    generateKeyFromInt_length valid.keySize k List.length_replicate
  simp [BenchmarkName.cost, mapKV, found, fitting _ short, length]

/-- A thread that reads keys of the filled store reports all of them found. -/
theorem readSeq_report (valid : SequentialFlags flags) {fits : Nat → Bool}
    (fitting : ∀ length < maxValLen, fits length = true) {store : Contents}
    (filled : HoldsSequence flags store) {tid : Nat} (thread : tid < flags.threads.toNat)
    : let loop := readLoop (.reset flags) (mapKV fits) true false
      let cost := fun key => BenchmarkName.readseq.cost fits (.reset flags) key store
      (loop.leave (soloState flags (.reset flags) loop cost tid flags.reads.toNat)).stats.report
        = allFound flags := by
  intro loop cost
  obtain ⟨reads, readsEq⟩ := Int.eq_ofNat_of_zero_le valid.reads
  have within := valid.within
  have toNat : flags.reads.toNat = reads := by omega
  have hit : ∀ j < flags.reads.toNat,
      cost (soloKey flags (.reset flags) loop cost tid j)
        = (flags.valueSize.toNat + flags.keySize.toNat, 1) := by
    intro j iteration
    have inRange : j < flags.num.toNat := by omega
    rw [valid.soloKey_eq rfl (fun _ => rfl) thread inRange]
    exact valid.read_cost fitting filled (index_lt thread inRange)
  obtain ⟨bytes, hits⟩ :=
    soloState_counts flags (.reset flags) loop cost tid flags.reads.toNat hit
  obtain ⟨_, stats⟩ := soloState_thread flags (.reset flags) loop cost tid flags.reads.toNat
  have counted : (soloState flags (.reset flags) loop cost tid flags.reads.toNat).thread.stats
      = ⟨flags.reads.toNat, 0, ""⟩ := by
    rw [stats]
    simp [loop, readLoop, ThreadState.make, Stats.start]
  have limit : (Benchmark.reset flags).reads = reads := by
    simp [Benchmark.reset, readsEq]
  rw [readLoop_report _ _ _ _ counted, bytes, hits, limit, allFound, readsEq, Nat.mul_one,
    Nat.add_comm flags.valueSize.toNat]
  rfl

/-- A sequential read of the filled store finds every key and changes nothing. -/
theorem readseq_allFound (valid : SequentialFlags flags) {fits : Nat → Bool}
    (fitting : ∀ length < maxValLen, fits length = true) {store : Contents}
    (filled : HoldsSequence flags store)
    : BenchmarkName.readseq.outcome fits (.reset flags) flags flags.threads.toNat store
      = (store, List.replicate flags.threads.toNat (allFound flags)) := by
  have bmReads : (Benchmark.reset flags).reads = flags.reads := by
    simp [Benchmark.reset, Int.not_lt.mpr valid.reads]
  refine Prod.ext (perform_idle _ store) ?_
  have printed : (BenchmarkName.readseq.outcome fits (.reset flags) flags
        flags.threads.toNat store).2
      = (List.finRange flags.threads.toNat).map (fun _ => allFound flags) := by
    apply List.map_congr_left
    intro i _
    have each := valid.readSeq_report fitting filled i.isLt
    rw [← bmReads] at each
    exact each
  rw [printed, List.map_const', List.length_finRange]

/-- A sequential delete empties the filled store. -/
theorem deleteseq_empties (valid : SequentialFlags flags) (fits : Nat → Bool)
    {store : Contents} (filled : HoldsSequence flags store)
    : (BenchmarkName.deleteseq.outcome fits (.reset flags) flags flags.threads.toNat store).1
      = ∅ := by
  let loop := deleteLoop (.reset flags) (mapKV fits) true
  let keys := together (fun i : Fin flags.threads.toNat =>
    soloKeys flags (.reset flags) loop (fun _ => (0, 0)) i flags.num.toNat)
  have contents : (BenchmarkName.deleteseq.outcome fits (.reset flags) flags
      flags.threads.toNat store).1 = drain keys store :=
    rfl
  rw [contents]
  apply Finmap.ext_lookup
  intro key
  rw [lookup_drain, Finmap.lookup_empty]
  split
  · rfl
  · next unlisted =>
    rw [Finmap.lookup_eq_none]
    intro member
    exact unlisted ((valid.mem_together_iff rfl (fun _ => rfl)).mpr (filled.only key member))

/-- The sequential benchmarks complete under every interleaving. -/
theorem completes (valid : SequentialFlags flags) (fits : Nat → Bool) (name : BenchmarkName)
    (sequential : (name.loop flags (.reset flags) (mapKV fits)).seq = true) (n : Nat)
    (store : Contents)
    : (name.method flags (.reset flags) (mapKV fits)).Completes n store := by
  rw [BenchmarkName.method_eq_forLoop]
  exact forLoop_completes (name.loop_acts _ flags (mapKV_mapLaws fits)) valid.keySize
    (.inl sequential) (name.calls_of_valueSize (mapKV_mapLaws fits) valid.valueSize) rfl

end SequentialFlags

/-- Sequential benchmarks partition the key space, under every interleaving of each of
them: all runs complete, a fill of a fresh store leaves exactly one entry for every index
below `threads * num`, a read that follows makes every thread report all of its keys found,
and a delete that follows leaves the store empty.
-/
theorem sequential_benchmarks_partition_keys (fits : Nat → Bool)
    (fitting : ∀ length < maxValLen, fits length = true) (flags : Flags)
    (valid : SequentialFlags flags)
    : (∀ name ∈ [BenchmarkName.fillseq, .readseq, .deleteseq], ∀ store : Contents,
        (name.method flags (.reset flags) (mapKV fits)).Completes flags.threads.toNat store)
      ∧ ∀ store fill read delete outcomes,
          runAll fits flags [(.fillseq, fill), (.readseq, read), (.deleteseq, delete)] store
            = some outcomes
          → ∃ filled fillReports deleteReports,
              outcomes
                = [(filled, fillReports),
                    (filled, List.replicate flags.threads.toNat (allFound flags)),
                    (∅, deleteReports)]
              ∧ HoldsSequence flags filled := by
  refine ⟨?_, ?_⟩
  · intro name member store
    apply valid.completes
    simp only [List.mem_cons, List.not_mem_nil, or_false] at member
    rcases member with rfl | rfl | rfl <;> rfl
  · intro store fill read delete outcomes ran
    obtain ⟨afterFill, rfl, ranRead⟩ := runAll_cons ran
    obtain ⟨afterRead, rfl, ranDelete⟩ := runAll_cons ranRead
    obtain ⟨afterDelete, rfl, ranNothing⟩ := runAll_cons ranDelete
    cases ranNothing
    simp only [BenchmarkName.freshDb, if_true, Bool.false_eq_true, if_false]
    have filled := valid.fillseq_holdsSequence fits
    have found := valid.readseq_allFound fitting filled
    have emptied := valid.deleteseq_empties fits filled
    rw [found]
    generalize BenchmarkName.fillseq.outcome fits (.reset flags) flags flags.threads.toNat ∅
      = first at filled emptied
    obtain ⟨contents, fillReports⟩ := first
    generalize BenchmarkName.deleteseq.outcome fits (.reset flags) flags
      flags.threads.toNat contents = last at emptied
    obtain ⟨left, deleteReports⟩ := last
    cases emptied
    exact ⟨contents, fillReports, deleteReports, rfl, filled⟩

/-- A complete run of the three benchmarks, in which two threads work on one key each. -/
def fillReadDelete : List (BenchmarkName × List Action) :=
  let turns := [.main, .main, .main, .worker 0, .worker 1, .main, .worker 0, .worker 1,
    .worker 0, .worker 1, .worker 0, .worker 1, .worker 0, .worker 1, .worker 0, .worker 1,
    .worker 0, .worker 1, .main, .main, .main, .main]
  [(.fillseq, turns), (.readseq, turns), (.deleteseq, turns)]

/-- The run fills two keys, finds them and deletes them. -/
theorem fillReadDelete_two_threads
    : ∃ filled fillReports deleteReports,
        runAll (· < maxValLen) ⟨1, 1, 2, 1, 1⟩ fillReadDelete ∅
          = some
              [(filled, fillReports),
                (filled, [⟨1, 2, "(1 of 1 found)"⟩, ⟨1, 2, "(1 of 1 found)"⟩]),
                (∅, deleteReports)]
        ∧ filled.keys.card = 2 := by
  have valid : SequentialFlags ⟨1, 1, 2, 1, 1⟩ := by
    constructor <;> decide
  have complete
      : (runAll (· < maxValLen) ⟨1, 1, 2, 1, 1⟩ fillReadDelete ∅).isSome = true := by
    decide
  obtain ⟨outcomes, ran⟩ := Option.isSome_iff_exists.mp complete
  have partition := sequential_benchmarks_partition_keys (· < maxValLen)
    (fun length less => decide_eq_true less) ⟨1, 1, 2, 1, 1⟩ valid
  obtain ⟨filled, fillReports, deleteReports, rfl, holds⟩ := partition.2 ∅ _ _ _ outcomes ran
  exact ⟨filled, fillReports, deleteReports, ran, holds.size⟩

end PMKVLab.Bench
