import PMKVLab.Bench.SequentialKeys
import PMKVLab.Library.Decimals

/-! The random benchmarks: every one of them seeds its threads alike, so thread `tid` draws
the same keys in each. What one has written another reads, overwrites or deletes, and a
reader of missing keys draws the keys that are there.
-/

namespace PMKVLab.Bench

open PMKVLab.Library PMKVLab.Store

-----------------------------------------------------------------------------------------
-- The keys a thread draws
-----------------------------------------------------------------------------------------

/-- The generator of thread `tid` after `j` draws. -/
def generator (tid : Nat) : Nat → Random
  | 0 => Random.make (1000 + tid)
  | j + 1 => (generator tid j).next.2

/-- The buffer of thread `tid` after `j` draws; each key is written over the one before. -/
def drawnBuffer (flags : Flags) (tid : Nat) : Nat → Bytes
  | 0 => List.replicate flags.keySize.toNat 0
  | j + 1 =>
      let index := (generator tid j).next.1 % toUInt32 flags.num
      generateKeyFromInt flags.keySize (toUInt64 (toInt32 index)) (drawnBuffer flags tid j)

/-- The key of draw `j`. -/
def drawnKey (flags : Flags) (tid j : Nat) : Bytes := drawnBuffer flags tid (j + 1)

/-- The keys of the numbers below `FLAGS_num`. -/
def Drawable (flags : Flags) (key : Bytes) : Prop :=
  ∃ k < flags.num.toNat, key = sequentialKey flags.keySize k

section Drawable

variable {flags : Flags} (size : 0 ≤ flags.keySize) (positive : 0 < flags.num)
  (int : flags.num < 2 ^ 31)

include positive int in
theorem toUInt32_num : toUInt32 flags.num = flags.num.toNat := by
  unfold toUInt32
  omega

include positive int in
theorem drawn_index_lt (value : Nat) : value % toUInt32 flags.num < flags.num.toNat := by
  rw [toUInt32_num positive int]
  exact Nat.mod_lt _ (by omega)

include size positive int

/-- A random number modulo `FLAGS_num` gives the key of a number below it, whatever the buffer
held.
-/
theorem drawable_of_index (value : Nat) {key : Bytes} (length : key.length = flags.keySize.toNat)
    : Drawable flags (generateKeyFromInt flags.keySize (value % toUInt32 flags.num) key) := by
  refine ⟨_, drawn_index_lt positive int value, ?_⟩
  rw [sequentialKey, generateKeyFromInt_eq size _ length,
    generateKeyFromInt_eq size _ List.length_replicate]

omit positive int in
theorem drawnBuffer_length (tid j : Nat)
    : (drawnBuffer flags tid j).length = flags.keySize.toNat := by
  induction j with
  | zero => exact List.length_replicate
  | succ j ih => exact generateKeyFromInt_length size _ ih

/-- A drawn key is the key of a number below `FLAGS_num`. -/
theorem drawnKey_drawable (tid j : Nat) : Drawable flags (drawnKey flags tid j) := by
  have below := drawn_index_lt positive int (generator tid j).next.1
  rw [drawnKey, drawnBuffer, toUInt64_toInt32 (by omega)]
  exact drawable_of_index size positive int _ (drawnBuffer_length size tid j)

end Drawable

section Draws

variable {Store : Type} (flags : Flags) {body : LoopBody Store} (cost : Bytes → Nat × Nat)

/-- A random loop leaves the generator and the buffer to the draws, whatever it calls and
counts. By induction on the iterations.
-/
theorem soloState_draws (random : body.seq = false)
    (enter : ∀ thread, (body.enter thread).rand = thread.rand) (tid j : Nat)
    : (soloState flags (.reset flags) body cost tid j).thread.rand = generator tid j
      ∧ (soloState flags (.reset flags) body cost tid j).key = drawnBuffer flags tid j := by
  induction j with
  | zero => exact ⟨enter _, rfl⟩
  | succ j ih =>
      obtain ⟨rand, buffer⟩ := ih
      have drawn : nextKey flags (.reset flags) body.seq
            (soloState flags (.reset flags) body cost tid j)
          = (drawnBuffer flags tid (j + 1),
              { (soloState flags (.reset flags) body cost tid j).thread with
                rand := generator tid (j + 1) }) := by
        simp only [nextKey, keyIndex, random, Bool.false_eq_true, if_false, rand, buffer]
        rfl
      simp only [soloState, drawn]
      exact ⟨rfl, rfl⟩

/-- The keys of a random loop. -/
theorem soloKeys_random (random : body.seq = false)
    (enter : ∀ thread, (body.enter thread).rand = thread.rand) (tid j : Nat)
    : soloKeys flags (.reset flags) body cost tid j
      = (List.range j).map (drawnKey flags tid) := by
  apply List.map_congr_left
  intro k _
  exact (soloState_draws flags cost random enter tid (k + 1)).2

/-- A loop finds as often as its keys are hits, by induction on the iterations. -/
theorem soloState_found (bm : Benchmark) (tid j : Nat)
    : (soloState flags bm body cost tid j).found
      = ((soloKeys flags bm body cost tid j).map fun key => (cost key).2).sum := by
  induction j with
  | zero => rfl
  | succ j ih =>
      have added : (soloState flags bm body cost tid (j + 1)).found
          = (soloState flags bm body cost tid j).found
            + (cost (soloKey flags bm body cost tid j)).2 :=
        rfl
      rw [added, ih, soloKeys_succ]
      simp

end Draws

/-- The keys all threads draw in a loop of `count` iterations. -/
def drawnKeys (flags : Flags) (count : Nat) : List Bytes :=
  together fun i : Fin flags.threads.toNat => (List.range count).map (drawnKey flags i)

theorem mem_drawnKeys {flags : Flags} {count : Nat} {key : Bytes}
    : key ∈ drawnKeys flags count
      ↔ ∃ tid < flags.threads.toNat, ∃ j < count, drawnKey flags tid j = key := by
  simp only [drawnKeys, mem_together, List.mem_map, List.mem_range]
  constructor
  · rintro ⟨i, drawn⟩
    exact ⟨i, i.isLt, drawn⟩
  · rintro ⟨tid, thread, drawn⟩
    exact ⟨⟨tid, thread⟩, drawn⟩

-----------------------------------------------------------------------------------------
-- What the random benchmarks leave
-----------------------------------------------------------------------------------------

section Outcomes

variable (fits : Nat → Bool) (flags : Flags)

/-- A random benchmark acts on the keys its threads draw. -/
theorem BenchmarkName.random_contents {name : BenchmarkName}
    (random : (name.loop flags (.reset flags) (mapKV fits)).seq = false) (store : Contents)
    : (name.outcome fits (.reset flags) flags flags.threads.toNat store).1
      = perform (name.effect (.reset flags))
          (drawnKeys flags (name.loop flags (.reset flags) (mapKV fits)).count.toNat) store := by
  have enter : ∀ thread, ((name.loop flags (.reset flags) (mapKV fits)).enter thread).rand
      = thread.rand := by
    intro thread
    cases name <;> simp [BenchmarkName.loop, writeLoop, readLoop, deleteLoop, Benchmark.reset]
  simp only [BenchmarkName.outcome, drawnKeys, soloKeys_random flags _ random enter]

/-- The store after a random fill of an empty one. -/
def filledStore : Contents :=
  fill (writtenValue (.reset flags)) (drawnKeys flags flags.num.toNat) ∅

theorem fillrandom_contents
    : (BenchmarkName.fillrandom.outcome fits (.reset flags) flags flags.threads.toNat ∅).1
      = filledStore flags :=
  BenchmarkName.random_contents fits flags rfl ∅

/-- Overwriting binds the same keys to the same value again. -/
theorem overwrite_contents
    : (BenchmarkName.overwrite.outcome fits (.reset flags) flags flags.threads.toNat
        (filledStore flags)).1
      = filledStore flags := by
  have again : (BenchmarkName.overwrite.outcome fits (.reset flags) flags
        flags.threads.toNat (filledStore flags)).1
      = fill (writtenValue (.reset flags)) (drawnKeys flags flags.num.toNat)
          (filledStore flags) :=
    BenchmarkName.random_contents fits flags rfl _
  rw [again]
  apply Finmap.ext_lookup
  intro key
  rw [lookup_fill]
  split
  · next drawn => rw [filledStore, lookup_fill, if_pos drawn]
  · rfl

/-- Deleting unbinds the same keys again. -/
theorem deleterandom_contents
    : (BenchmarkName.deleterandom.outcome fits (.reset flags) flags flags.threads.toNat
        (filledStore flags)).1
      = ∅ := by
  have drained : (BenchmarkName.deleterandom.outcome fits (.reset flags) flags
        flags.threads.toNat (filledStore flags)).1
      = drain (drawnKeys flags flags.num.toNat) (filledStore flags) :=
    BenchmarkName.random_contents fits flags rfl _
  rw [drained]
  apply Finmap.ext_lookup
  intro key
  rw [lookup_drain, Finmap.lookup_empty]
  split
  · rfl
  · next undrawn => rw [filledStore, lookup_fill, if_neg undrawn, Finmap.lookup_empty]

end Outcomes

-----------------------------------------------------------------------------------------
-- What the random readers report
-----------------------------------------------------------------------------------------

section Reports

variable (fits : Nat → Bool) (flags : Flags)

/-- A key is bound to a value that fits the reader's buffer. -/
def Readable (store : Contents) (key : Bytes) : Prop :=
  ∃ value, store.lookup key = some value ∧ fits value.length = true

theorem get_ok_iff (store : Contents) (key : Bytes)
    : ((mapKV fits).get key store).1 = .ok ↔ Readable fits store key := by
  unfold Readable
  cases found : store.lookup key with
  | none => simp [mapKV, found]
  | some value =>
      cases fit : fits value.length with
      | true => simp [mapKV, found, fit]
      | false => simp [mapKV, found, fit]

/-- The hits of a thread that reads from the store. -/
def hits (store : Contents) (tid : Nat) : Nat :=
  ((List.range (Benchmark.reset flags).reads.toNat).map fun j =>
    if ((mapKV fits).get (drawnKey flags tid j) store).1 = .ok then 1 else 0).sum

def foundMessage (found : Nat) (reads : Int) : String :=
  "(" ++ toString found ++ " of " ++ toString reads ++ " found)"

theorem foundMessage_inj {found other : Nat} {reads : Int}
    : foundMessage found reads = foundMessage other reads ↔ found = other := by
  simp only [foundMessage, String.append_left_inj, String.append_right_inj]
  exact ⟨toString_injective, congrArg toString⟩

theorem hits_eq_zero_iff (store : Contents) (tid : Nat)
    : hits fits flags store tid = 0
      ↔ ∀ j < (Benchmark.reset flags).reads.toNat,
          ¬ Readable fits store (drawnKey flags tid j) := by
  simp [hits, List.sum_eq_zero_iff, get_ok_iff]

theorem hits_of_readable (store : Contents) (tid : Nat)
    (all : ∀ j < (Benchmark.reset flags).reads.toNat,
      Readable fits store (drawnKey flags tid j))
    : hits fits flags store tid = (Benchmark.reset flags).reads.toNat := by
  have ones : (List.range (Benchmark.reset flags).reads.toNat).map (fun j =>
        if ((mapKV fits).get (drawnKey flags tid j) store).1 = .ok then 1 else 0)
      = List.replicate (Benchmark.reset flags).reads.toNat 1 := by
    rw [List.eq_replicate_iff]
    refine ⟨by simp, ?_⟩
    intro hit member
    obtain ⟨j, iteration, rfl⟩ := List.mem_map.mp member
    exact if_pos ((get_ok_iff fits store _).mpr (all j (List.mem_range.mp iteration)))
  rw [hits, ones, List.sum_replicate, smul_eq_mul, mul_one]

/-- A random reader reports its hits; `missing` makes no difference. -/
theorem read_message (missing : Bool) (store : Contents) (tid : Nat)
    : let loop := readLoop (.reset flags) (mapKV fits) false missing
      let cost := fun key => BenchmarkName.readrandom.cost fits (.reset flags) key store
      let ended := soloState flags (.reset flags) loop cost tid loop.count.toNat
      (loop.leave ended).stats.report.message
        = foundMessage (hits fits flags store tid) (Benchmark.reset flags).reads := by
  intro loop cost ended
  let reads := (Benchmark.reset flags).reads.toNat
  obtain ⟨_, stats⟩ := soloState_thread flags (.reset flags) loop cost tid reads
  have counted : (soloState flags (.reset flags) loop cost tid reads).thread.stats
      = ⟨reads, 0, ""⟩ := by
    rw [stats]
    simp [loop, readLoop, ThreadState.make, Stats.start]
  have found : (soloState flags (.reset flags) loop cost tid reads).found
      = hits fits flags store tid := by
    rw [soloState_found, soloKeys_random flags cost rfl (fun _ => rfl), List.map_map]
    rfl
  have printed := readLoop_report (.reset flags) (mapKV fits) false missing counted
  rw [found] at printed
  exact congrArg Report.message printed

/-- The messages of a random reader, thread by thread. -/
theorem read_messages {name : BenchmarkName}
    (reader : name = .readrandom ∨ name = .readmissing) (store : Contents)
    : (name.outcome fits (.reset flags) flags flags.threads.toNat store).2.map Report.message
      = (List.finRange flags.threads.toNat).map fun i : Fin flags.threads.toNat =>
          foundMessage (hits fits flags store i) (Benchmark.reset flags).reads := by
  rcases reader with rfl | rfl
  · simp only [BenchmarkName.outcome, List.map_map]
    apply List.map_congr_left
    intro i _
    exact read_message fits flags false store i
  · simp only [BenchmarkName.outcome, List.map_map]
    apply List.map_congr_left
    intro i _
    exact read_message fits flags true store i

end Reports

/-- The flags for which the random benchmarks replay each other's keys. -/
structure RandomFlags (flags : Flags) : Prop where
  positive : 0 < flags.num
  reads : 0 ≤ flags.reads
  within : flags.reads ≤ flags.num
  shortValue : flags.valueSize < maxValLen

namespace RandomFlags

variable {flags : Flags}

theorem reset_reads (valid : RandomFlags flags) : (Benchmark.reset flags).reads = flags.reads := by
  simp [Benchmark.reset, Int.not_lt.mpr valid.reads]

/-- A random read of the filled store hits with every draw. -/
theorem readrandom_hits (valid : RandomFlags flags) {fits : Nat → Bool}
    (fitting : ∀ length < maxValLen, fits length = true) {tid : Nat}
    (thread : tid < flags.threads.toNat)
    : hits fits flags (filledStore flags) tid = flags.reads.toNat := by
  have reads := valid.reset_reads
  have within := valid.within
  have short := valid.shortValue
  rw [← reads]
  apply hits_of_readable
  intro j iteration
  rw [reads] at iteration
  have drawn : drawnKey flags tid j ∈ drawnKeys flags flags.num.toNat :=
    mem_drawnKeys.mpr ⟨tid, thread, j, by omega, rfl⟩
  refine ⟨writtenValue (.reset flags), ?_, ?_⟩
  · rw [filledStore, lookup_fill, if_pos drawn]
  · apply fitting
    simp only [writtenValue, Benchmark.reset, List.length_replicate]
    have positive : 0 < maxValLen := by decide
    omega

end RandomFlags

/-- A complete run of a random fill and one more benchmark. -/
theorem runAll_after_fillrandom {fits : Nat → Bool} {flags : Flags} {name : BenchmarkName}
    (continues : name.freshDb = false) {fill schedule : List Action} {store : Contents}
    {outcomes : List (Contents × List Report)}
    (ran : runAll fits flags [(.fillrandom, fill), (name, schedule)] store = some outcomes)
    : let last := name.outcome fits (.reset flags) flags flags.threads.toNat (filledStore flags)
      ∃ fillReports, outcomes = [(filledStore flags, fillReports), (last.1, last.2)] := by
  obtain ⟨afterFill, rfl, ranNext⟩ := runAll_cons ran
  obtain ⟨afterNext, rfl, ranNothing⟩ := runAll_cons ranNext
  cases ranNothing
  have fresh : BenchmarkName.fillrandom.freshDb = true := rfl
  simp only [fresh, if_true, continues, Bool.false_eq_true, if_false]
  rw [← fillrandom_contents fits flags]
  exact ⟨_, rfl⟩

/-- Random benchmarks replay the same keys, under every interleaving of each of them: on the
store left by a random fill, overwriting changes nothing, every reading thread reports all
of its reads found, and deleting leaves nothing. All of them complete when keys and values
can be allocated.
-/
theorem random_benchmarks_replay_keys (fits : Nat → Bool)
    (fitting : ∀ length < maxValLen, fits length = true) (flags : Flags)
    (valid : RandomFlags flags) (store : Contents)
    : (∀ fill overwrite outcomes,
        runAll fits flags [(.fillrandom, fill), (.overwrite, overwrite)] store = some outcomes
        → ∃ filled fillReports reports,
            outcomes = [(filled, fillReports), (filled, reports)])
      ∧ (∀ fill read outcomes,
        runAll fits flags [(.fillrandom, fill), (.readrandom, read)] store = some outcomes
        → ∃ filled fillReports reports,
            outcomes = [(filled, fillReports), (filled, reports)]
            ∧ reports.map Report.message
              = List.replicate flags.threads.toNat
                  ("(" ++ toString flags.reads ++ " of " ++ toString flags.reads ++ " found)"))
      ∧ (∀ fill delete outcomes,
        runAll fits flags [(.fillrandom, fill), (.deleterandom, delete)] store = some outcomes
        → ∃ filled fillReports reports,
            outcomes = [(filled, fillReports), (∅, reports)])
      ∧ (0 ≤ flags.keySize → 0 ≤ flags.valueSize → flags.num < 2 ^ 31
        → ∀ name ∈ [BenchmarkName.fillrandom, .overwrite, .readrandom, .deleterandom],
            (name.method flags (.reset flags) (mapKV fits)).Completes flags.threads.toNat
              store) := by
  refine ⟨?_, ?_, ?_, ?_⟩
  · intro fill overwrite outcomes ran
    obtain ⟨fillReports, rfl⟩ := runAll_after_fillrandom rfl ran
    rw [overwrite_contents]
    exact ⟨filledStore flags, fillReports, _, rfl⟩
  · intro fill read outcomes ran
    obtain ⟨fillReports, rfl⟩ := runAll_after_fillrandom rfl ran
    have unchanged : (BenchmarkName.readrandom.outcome fits (.reset flags) flags
        flags.threads.toNat (filledStore flags)).1 = filledStore flags :=
      perform_idle _ _
    rw [unchanged]
    refine ⟨filledStore flags, fillReports, _, rfl, ?_⟩
    rw [read_messages fits flags (.inl rfl), valid.reset_reads, List.eq_replicate_iff]
    refine ⟨by simp, ?_⟩
    intro message member
    obtain ⟨i, _, rfl⟩ := List.mem_map.mp member
    obtain ⟨reads, same⟩ := Int.eq_ofNat_of_zero_le valid.reads
    rw [valid.readrandom_hits fitting i.isLt, same]
    rfl
  · intro fill delete outcomes ran
    obtain ⟨fillReports, rfl⟩ := runAll_after_fillrandom rfl ran
    rw [deleterandom_contents]
    exact ⟨filledStore flags, fillReports, _, rfl⟩
  · intro keySize valueSize bounded name _
    have positive := valid.positive
    have nonzero : toUInt32 flags.num ≠ 0 := by
      rw [toUInt32]
      omega
    exact name.completes (mapKV_mapLaws fits) keySize nonzero
      (name.calls_of_valueSize (mapKV_mapLaws fits) valueSize) _ rfl

/-- A complete run of two threads that make two calls each, one thread after the other. -/
def twoThreads : List Action :=
  [.main, .main, .main, .worker 0, .worker 1, .main]
  ++ List.replicate 7 (.worker 0) ++ List.replicate 7 (.worker 1) ++ List.replicate 4 .main

/-- Two threads with two reads each find the keys of a random fill. -/
theorem readrandom_two_keys
    : ∃ filled fillReports reports,
        runAll (· < maxValLen) ⟨2, 2, 2, 1, 1⟩
            [(.fillrandom, twoThreads), (.readrandom, twoThreads)] ∅
          = some [(filled, fillReports), (filled, reports)]
        ∧ reports.map Report.message = ["(2 of 2 found)", "(2 of 2 found)"] := by
  have valid : RandomFlags ⟨2, 2, 2, 1, 1⟩ := by
    constructor <;> decide
  have complete
      : (runAll (· < maxValLen) ⟨2, 2, 2, 1, 1⟩
          [(.fillrandom, twoThreads), (.readrandom, twoThreads)] ∅).isSome = true := by
    decide +kernel
  obtain ⟨outcomes, ran⟩ := Option.isSome_iff_exists.mp complete
  obtain ⟨_, reads, _, _⟩ := random_benchmarks_replay_keys (· < maxValLen)
    (fun length less => decide_eq_true less) ⟨2, 2, 2, 1, 1⟩ valid ∅
  obtain ⟨filled, fillReports, reports, rfl, messages⟩ := reads _ _ outcomes ran
  exact ⟨filled, fillReports, reports, ran, messages⟩

end PMKVLab.Bench
