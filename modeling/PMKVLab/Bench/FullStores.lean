import PMKVLab.Bench.RandomKeys
import PMKVLab.Bench.ReadWriteMix
import PMKVLab.Store.TableEngine

/-! The benchmarks that read and write at the same time, on a store that has every key they
can draw. Whatever the threads overwrite in between, every get finds its key, and the store
keeps its set of keys.
-/

namespace PMKVLab.Bench

open PMKVLab.Library PMKVLab.Store

-----------------------------------------------------------------------------------------
-- Drawn keys
-----------------------------------------------------------------------------------------

/-- The flags of a mixed benchmark: keys can be drawn, and the written values can be read
back.
-/
structure MixedFlags (flags : Flags) : Prop where
  num : 0 < flags.num
  small : flags.num < 2 ^ 31
  keySize : 0 ≤ flags.keySize
  shortValue : flags.valueSize < maxValLen

section Keys

variable {flags : Flags}

theorem MixedFlags.toNat_valueSize (valid : MixedFlags flags)
    : flags.valueSize.toNat < maxValLen := by
  have short := valid.shortValue
  unfold maxValLen at short ⊢
  omega

/-- The buffer of a thread has the length of a key. -/
theorem MixedFlags.allocated_length (valid : MixedFlags flags) {key : Bytes}
    (allocated : allocateKey flags.keySize = some key)
    : key.length = flags.keySize.toNat := by
  rw [allocateKey, if_neg (Int.not_lt.mpr valid.keySize), Option.some.injEq] at allocated
  rw [← allocated]
  exact List.length_replicate

theorem MixedFlags.drawable (valid : MixedFlags flags) (value : Nat) {key : Bytes}
    (length : key.length = flags.keySize.toNat)
    : Drawable flags (generateKeyFromInt flags.keySize (value % toUInt32 flags.num) key) :=
  drawable_of_index valid.keySize valid.num valid.small value length

/-- The readers draw their keys in the same way, through an `int`. -/
theorem MixedFlags.nextKey_drawable (valid : MixedFlags flags) {l : LoopState}
    (length : l.key.length = flags.keySize.toNat)
    : Drawable flags (nextKey flags (.reset flags) false l).1
      ∧ (nextKey flags (.reset flags) false l).1.length = flags.keySize.toNat := by
  have below : l.thread.rand.next.1 % toUInt32 flags.num < 2 ^ 31 := by
    have index := drawn_index_lt valid.num valid.small l.thread.rand.next.1
    have small := valid.small
    omega
  have drawn : (nextKey flags (.reset flags) false l).1
      = generateKeyFromInt flags.keySize (l.thread.rand.next.1 % toUInt32 flags.num) l.key := by
    simp only [nextKey, keyIndex, Bool.false_eq_true, if_false, toUInt64_toInt32 below,
      Benchmark.reset]
  rw [drawn]
  exact ⟨valid.drawable _ length, generateKeyFromInt_length valid.keySize _ length⟩

end Keys

-----------------------------------------------------------------------------------------
-- The store
-----------------------------------------------------------------------------------------

/-- The pool behind the handle binds exactly `keys`, and every key that can be drawn to a
value that can be read.
-/
def HasAllKeys {E : Engine} (V : E.View) (db : E.Db) (path : String) (flags : Flags)
    (keys : Finset Bytes) (state : E.State)
    : Prop :=
  ∃ contents, V.Live state db path contents ∧ contents.keys = keys
    ∧ ∀ key, Drawable flags key → Readable (V.fits · maxValLen) contents key

section Store

variable {E : Engine} {V : E.View} (laws : E.CmapLaws V) {db : E.Db} {path : String}
  {flags : Flags} {keys : Finset Bytes} {state : E.State} {key : Bytes}

theorem HasAllKeys.of_bound {contents : Contents} (live : V.Live state db path contents)
    (bound : ∀ k < flags.num.toNat,
      Readable (V.fits · maxValLen) contents (sequentialKey flags.keySize k))
    : HasAllKeys V db path flags contents.keys state := by
  refine ⟨contents, live, rfl, ?_⟩
  rintro key ⟨k, less, rfl⟩
  exact bound k less

theorem HasAllKeys.bound (has : HasAllKeys V db path flags keys state)
    : ∃ contents, V.Live state db path contents ∧ contents.keys = keys
      ∧ ∀ k < flags.num.toNat,
          Readable (V.fits · maxValLen) contents (sequentialKey flags.keySize k) := by
  obtain ⟨contents, live, sameKeys, readable⟩ := has
  exact ⟨contents, live, sameKeys, fun k less => readable _ ⟨k, less, rfl⟩⟩

include laws in
theorem HasAllKeys.get (has : HasAllKeys V db path flags keys state)
    (drawable : Drawable flags key)
    : ((wrapperKV E ⟨some db⟩).get key state).1 = .ok := by
  obtain ⟨contents, live, -, readable⟩ := has
  obtain ⟨value, found, fits⟩ := readable key drawable
  simp only [wrapperKV, PMKVWrapper.get_of_live laws live, found, fits, if_true]

include laws in
/-- Overwriting a key that is there leaves all keys there. A put without room changes
nothing, and ends the process.
-/
theorem HasAllKeys.put (has : HasAllKeys V db path flags keys state)
    (drawable : Drawable flags key) {data : Bytes} (short : data.length < maxValLen)
    : HasAllKeys V db path flags keys ((wrapperKV E ⟨some db⟩).put key data state).2 := by
  obtain ⟨contents, live, sameKeys, readable⟩ := has
  have next : ((wrapperKV E ⟨some db⟩).put key data state).2
      = (E.pmemkvPut (some db) key data state).2 := by
    simp only [wrapperKV, Harness.put, pmkvPut]
    exact (apply_ite Prod.snd _ _ _).trans (ite_self _)
  rw [next]
  cases room : V.hasRoom state db key data with
  | false =>
      obtain ⟨-, updates⟩ := laws.putWithoutRoom live room
      exact ⟨contents, live.of_updates updates, sameKeys, readable⟩
  | true =>
      obtain ⟨-, updates⟩ := laws.putWithRoom live room
      refine ⟨contents.insert key data, live.of_updates updates, ?_, ?_⟩
      · obtain ⟨old, found, -⟩ := readable key drawable
        have member : key ∈ contents := Finmap.mem_of_lookup_eq_some found
        rw [← sameKeys]
        ext other
        rw [Finmap.mem_keys, Finmap.mem_keys, Finmap.mem_insert]
        constructor
        · rintro (rfl | bound)
          · exact member
          · exact bound
        · exact Or.inr
      · intro other drawn
        unfold Readable
        rw [lookup_insert_eq]
        split
        · exact ⟨data, rfl, laws.fits_of_lt short⟩
        · exact readable other drawn

end Store

/-- A window of the random data has at most the length that was asked for. -/
theorem RandomGenerator.generate_length (gen : RandomGenerator) (len : Nat)
    : (gen.generate len).1.length ≤ len :=
  List.length_take_le _ _

-----------------------------------------------------------------------------------------
-- ReadRandomWriteRandom
-----------------------------------------------------------------------------------------

section Mix

variable {E : Engine} {V : E.View} (laws : E.CmapLaws V) {db : E.Db} {path : String}
  {flags : Flags} {keys : Finset Bytes} {percent : Int}

/-- Every get so far has found its key. -/
structure MixState.AllFound (flags : Flags) (m : MixState) : Prop where
  found : m.found = m.readsDone
  length : m.key.length = flags.keySize.toNat
  message : m.thread.stats.message = ""

variable (percent) in
/-- Drawing a key and refilling the weights count nothing. -/
theorem MixState.AllFound.prepare (valid : MixedFlags flags) {m : MixState}
    (all : m.AllFound flags) (ops : Int)
    : ((({ m with ops := ops }).drawKey flags (.reset flags)).refill percent).AllFound flags
      ∧ Drawable flags
          ((({ m with ops := ops }).drawKey flags (.reset flags)).refill percent).key := by
  have drawn : Drawable flags (({ m with ops := ops }).drawKey flags (.reset flags)).key :=
    valid.drawable _ all.length
  have length : (({ m with ops := ops }).drawKey flags (.reset flags)).key.length
      = flags.keySize.toNat :=
    generateKeyFromInt_length valid.keySize _ all.length
  unfold refill
  split
  · exact ⟨⟨all.found, length, all.message⟩, drawn⟩
  · exact ⟨⟨all.found, length, all.message⟩, drawn⟩

include laws in
/-- An operation on a drawn key: a get finds it, and a put keeps all keys. -/
theorem MixState.AllFound.operate (valid : MixedFlags flags) {m next : MixState}
    (all : m.AllFound flags) (drawable : Drawable flags m.key) {state after : E.State}
    (has : HasAllKeys V db path flags keys state)
    (operated : m.operate (.reset flags) (wrapperKV E ⟨some db⟩) state
      = .continues next after)
    : HasAllKeys V db path flags keys after ∧ next.AllFound flags := by
  unfold MixState.operate at operated
  split at operated
  · cases operated
    refine ⟨has, ?_, all.length, all.message⟩
    simp only [MixState.get, finishOp, has.get laws drawable, if_true, all.found]
  · split at operated
    · simp only [MixState.put] at operated
      split at operated
      · cases operated
      · split at operated
        · next called =>
            cases operated
            have data := m.gen.generate_length flags.valueSize.toNat
            have kept := has.put laws drawable (Nat.lt_of_le_of_lt data valid.toNat_valueSize)
            rw [show (Benchmark.reset flags).valueSize = flags.valueSize from rfl] at called
            rw [called] at kept
            exact ⟨kept, all.found, all.length, all.message⟩
        · cases operated
    · cases operated
      exact ⟨has, all⟩

/-- The phase of a thread whose gets have all found their keys. -/
def MixFinds (flags : Flags) (kv : KV E.State) (percent : Int) (_tid : Nat)
    : Phase (readRandomWriteRandom flags (.reset flags) kv percent) → Prop
  | .waiting => True
  | .running (m : MixState) => m.AllFound flags
  | .finished thread => ∃ m : MixState, m.AllFound flags ∧ thread = m.leave flags

include laws in
theorem mixFinds_keeps (valid : MixedFlags flags) (n : Nat)
    : (readRandomWriteRandom flags (.reset flags) (wrapperKV E ⟨some db⟩) percent).Keeps n
        (fun phases state => HasAllKeys V db path flags keys state
          ∧ ∀ i : Fin n, MixFinds flags (wrapperKV E ⟨some db⟩) percent i (phases i)) := by
  apply Method.keeps_over
  · intro i m entered
    obtain ⟨key, allocated, rfl⟩ := Option.map_eq_some_iff.mp entered
    exact ⟨rfl, valid.allocated_length allocated, rfl⟩
  · intro i m next state after shared has all stepped
    simp only [readRandomWriteRandom, mixDuration_done] at stepped
    split at stepped
    · cases stepped
    · split at stepped
      · cases stepped
      · obtain ⟨prepared, drawable⟩ :=
          MixState.AllFound.prepare percent valid all (m.ops + 1)
        exact prepared.operate laws valid drawable has stepped
  · intro i m thread state after shared has all stepped
    cases mixStep stepped with
    | leaves => exact ⟨has, m, all, rfl⟩

end Mix

/-- `ReadRandomWriteRandom` over a store that has all keys below `FLAGS_num`, with any number
of threads, every interleaving and any percentage: in every state the store binds the keys it
bound at the start, all of those below `FLAGS_num` to values that can be read, and a thread
that has returned prints as many keys found as it has made reads.
-/
theorem readRandomWriteRandom_finds_all {E : Engine} {V : E.View} (laws : E.CmapLaws V)
    {flags : Flags} (valid : MixedFlags flags) (percent : Int) {db : E.Db} {path : String}
    {start : E.State} {contents : Contents} (live : V.Live start db path contents)
    (bound : ∀ k < flags.num.toNat,
      Readable (V.fits · maxValLen) contents (sequentialKey flags.keySize k))
    {n : Nat}
    {s : System (readRandomWriteRandom flags (.reset flags) (wrapperKV E ⟨some db⟩) percent) n}
    (reachable : Reachable System.step
      (System.init (readRandomWriteRandom flags (.reset flags) (wrapperKV E ⟨some db⟩) percent)
        n start) s)
    : (∃ now, V.Live s.store db path now ∧ now.keys = contents.keys
        ∧ ∀ k < flags.num.toNat,
            Readable (V.fits · maxValLen) now (sequentialKey flags.keySize k))
      ∧ ∀ i thread, s.phases i = .finished thread
          → ∃ reads writes,
              thread.stats.message = mixMessage reads writes (readwrites flags) reads := by
  have initial := HasAllKeys.of_bound live bound
  obtain ⟨has, finds⟩ :=
    (mixFinds_keeps laws valid n).of_reachable ⟨initial, fun _ => trivial⟩ reachable
  refine ⟨has.bound, ?_⟩
  intro i thread finished
  have all := finds i
  rw [finished] at all
  obtain ⟨m, all, rfl⟩ := all
  refine ⟨m.readsDone, m.writesDone, ?_⟩
  simp only [MixState.leave, Stats.addMessage, Stats.addBytes, all.message,
    Stats.appendWithSpace_empty, all.found]

/-- The keys of two numbers, of one byte each and with values of one byte. -/
def twoKeyStore : Contents :=
  ((∅ : Contents).insert (sequentialKey 1 0) [88]).insert (sequentialKey 1 1) [88]

theorem twoKeyStore_bound (k : Nat) (less : k < 2)
    : Readable (tableView.fits · maxValLen) twoKeyStore (sequentialKey 1 k) := by
  obtain rfl | rfl : k = 0 ∨ k = 1 := by omega
  · exact ⟨[88], by decide, rfl⟩
  · exact ⟨[88], by decide, rfl⟩

/-- Witness: two threads with one get and three puts each on that store. -/
theorem readRandomWriteRandom_finds_all_four
    : ∃ s, Reachable System.step
        (System.init (readRandomWriteRandom ⟨2, 4, 2, 1, 1⟩ (.reset ⟨2, 4, 2, 1, 1⟩)
          (wrapperKV tableEngine ⟨some 0⟩) 1) 2 (openedTable twoKeyStore)) s
      ∧ (∃ now, tableView.Live s.store 0 "/mnt/ramdisk/test" now ∧ now.keys = twoKeyStore.keys)
      ∧ ∀ i, ∃ thread, s.phases i = .finished thread
        ∧ (∃ found, thread.stats.message = mixMessage 1 3 4 found)
        ∧ ∃ reads writes, thread.stats.message = mixMessage reads writes 4 reads := by
  have valid : MixedFlags ⟨2, 4, 2, 1, 1⟩ := by
    constructor <;> decide
  have complete : (readRandomWriteRandom ⟨2, 4, 2, 1, 1⟩ (.reset ⟨2, 4, 2, 1, 1⟩)
      (wrapperKV tableEngine ⟨some 0⟩) 1).Completes 2 (openedTable twoKeyStore) := by
    have puts (key data : Bytes) (state : TableState)
        (usable : ∃ contents, tableView.Live state 0 "/mnt/ramdisk/test" contents)
        : ((wrapperKV tableEngine ⟨some 0⟩).put key data state).1 = .ok .ok
          ∧ ∃ contents, tableView.Live ((wrapperKV tableEngine ⟨some 0⟩).put key data state).2 0
              "/mnt/ramdisk/test" contents := by
      obtain ⟨contents, live⟩ := usable
      obtain ⟨ok, updates⟩ := Harness.put_of_live tableEngine_cmapLaws live .bench
        (tableView_alwaysRoom state 0 key data)
      exact ⟨ok, _, live.of_updates updates⟩
    exact mix_completes (by decide) (by decide) (by decide) puts 2
      ⟨_, openedTable_live twoKeyStore⟩
  obtain ⟨s, reachable, finished⟩ := complete.completable _ (.refl _ _)
  obtain ⟨threads, returned, _⟩ := finished.returned (.of_reachable reachable)
  obtain ⟨⟨now, live, keys, _⟩, finds⟩ := readRandomWriteRandom_finds_all tableEngine_cmapLaws
    valid 1 (openedTable_live twoKeyStore) twoKeyStore_bound reachable
  refine ⟨s, reachable, ⟨now, live, keys⟩, fun i => ⟨threads i, returned i, ?_,
    finds i _ (returned i)⟩⟩
  have mixing := mixing_of_reachable reachable i
  rw [returned i] at mixing
  obtain ⟨m, iterated, left⟩ := mixing
  have mix : m.mix = ⟨0, 96, 1, 3⟩ := iterated.mix.trans (by decide)
  have reads : m.readsDone = 1 := congrArg Mix.reads mix
  have writes : m.writesDone = 3 := congrArg Mix.writes mix
  refine ⟨m.found, ?_⟩
  rw [left, iterated.leave.2, reads, writes]
  rfl

-----------------------------------------------------------------------------------------
-- ReadWhileWriting
-----------------------------------------------------------------------------------------

section Readers

variable {E : Engine} {V : E.View} (laws : E.CmapLaws V) {db : E.Db} {path : String}
  {flags : Flags} {keys : Finset Bytes}

/-- Every read of the loop so far has found its key. -/
structure LoopState.AllFound (flags : Flags) (l : LoopState) : Prop where
  found : l.found = l.i
  atMost : l.i ≤ (Benchmark.reset flags).reads.toNat
  length : l.key.length = flags.keySize.toNat
  message : l.thread.stats.message = ""

include laws in
/-- One read finds its key and leaves the store alone. -/
theorem LoopState.AllFound.read (valid : MixedFlags flags) {l next : LoopState}
    (all : l.AllFound flags) {state after : E.State} {shared : SharedState}
    (has : HasAllKeys V db path flags keys state)
    (stepped : (readRandom flags (.reset flags) (wrapperKV E ⟨some db⟩)).step shared l state
      = .continues next after)
    : HasAllKeys V db path flags keys after ∧ next.AllFound flags := by
  obtain ⟨more, bytes, found, operated, rfl⟩ := forLoop_continues stepped
  obtain ⟨drawable, length⟩ := valid.nextKey_drawable all.length
  have hit := has.get laws drawable
  have more : (l.i : Int) < (Benchmark.reset flags).reads := more
  simp only [readLoop, hit, if_true, Option.some.injEq, Prod.mk.injEq] at operated
  obtain ⟨-, rfl, rfl⟩ := operated
  refine ⟨has, ?_, ?_, length, ?_⟩
  · exact congrArg (· + 1) all.found
  · simp only [LoopState.finishOp]
    omega
  · have kept := (nextKey_thread flags (.reset flags) false l).2
    exact (congrArg Stats.message kept).trans all.message

/-- The message of a reader that returns. -/
theorem LoopState.AllFound.leave {l : LoopState}
    (all : l.AllFound flags) {thread : ThreadState} {state after : E.State}
    {shared : SharedState}
    (stepped : (readRandom flags (.reset flags) (wrapperKV E ⟨some db⟩)).step shared l state
      = .returns thread after)
    : after = state
      ∧ thread.stats.message
        = foundMessage (Benchmark.reset flags).reads.toNat (Benchmark.reset flags).reads := by
  obtain ⟨done, rfl, rfl⟩ := forLoop_returns stepped
  have done : ¬ (l.i : Int) < (Benchmark.reset flags).reads := done
  have last : l.i = (Benchmark.reset flags).reads.toNat := by
    have atMost := all.atMost
    omega
  refine ⟨rfl, ?_⟩
  simp only [readLoop, Stats.addMessage, Stats.addBytes, all.message,
    Stats.appendWithSpace_empty, all.found, last]
  rfl

include laws in
/-- A step of the writer: its put overwrites a key that is there. -/
theorem bgWriter_keeps_keys (valid : MixedFlags flags) {w next : WriterState}
    (length : w.key.length = flags.keySize.toNat) {state after : E.State} {shared : SharedState}
    (has : HasAllKeys V db path flags keys state)
    (stepped : (bgWriter flags (.reset flags) (wrapperKV E ⟨some db⟩)).step shared w state
      = .continues next after)
    : HasAllKeys V db path flags keys after ∧ next.key.length = flags.keySize.toNat := by
  simp only [bgWriter] at stepped
  split at stepped
  · split at stepped
    · cases stepped
    · cases stepped
      exact ⟨has, length⟩
  · simp only [writerPut] at stepped
    split at stepped
    · cases stepped
    · split at stepped
      · next called =>
          cases stepped
          have data := w.gen.generate_length flags.valueSize.toNat
          have kept := has.put laws (valid.drawable w.thread.rand.next.1 length)
            (Nat.lt_of_le_of_lt data valid.toNat_valueSize)
          rw [show (Benchmark.reset flags).valueSize = flags.valueSize from rfl,
            show (Benchmark.reset flags).keySize = flags.keySize from rfl] at called
          rw [called] at kept
          exact ⟨kept, generateKeyFromInt_length valid.keySize _ length⟩
      · cases stepped

/-- Thread 0 writes, and the reads of the others have all found their keys. -/
def ReaderFinds (flags : Flags) (kv : KV E.State) (tid : Nat)
    : Phase (readWhileWriting flags (.reset flags) kv) → Prop
  | .waiting => True
  | .running (.inl (w : WriterState)) => tid = 0 ∧ w.key.length = flags.keySize.toNat
  | .running (.inr (l : LoopState)) => l.AllFound flags
  | .finished thread => 0 < tid → thread.stats.message
      = foundMessage (Benchmark.reset flags).reads.toNat (Benchmark.reset flags).reads

include laws in
theorem readerFinds_keeps (valid : MixedFlags flags) (n : Nat)
    : (readWhileWriting flags (.reset flags) (wrapperKV E ⟨some db⟩)).Keeps n
        (fun phases state => HasAllKeys V db path flags keys state
          ∧ ∀ i : Fin n, ReaderFinds flags (wrapperKV E ⟨some db⟩) i (phases i)) := by
  apply Method.keeps_over
  · intro i now entered
    simp only [readWhileWriting] at entered
    split at entered
    · obtain ⟨l, started, rfl⟩ := Option.map_eq_some_iff.mp entered
      obtain ⟨key, allocated, rfl⟩ := Option.map_eq_some_iff.mp started
      exact ⟨rfl, Nat.zero_le _, valid.allocated_length allocated, rfl⟩
    · next writer =>
        obtain ⟨w, started, rfl⟩ := Option.map_eq_some_iff.mp entered
        obtain ⟨key, allocated, rfl⟩ := Option.map_eq_some_iff.mp started
        exact ⟨Nat.eq_zero_of_not_pos writer, valid.allocated_length allocated⟩
  · intro i now next state after shared has finds stepped
    cases now with
    | inl w =>
        obtain ⟨w', moved, rfl⟩ := Outcome.map_eq_continues stepped
        obtain ⟨kept, length⟩ := bgWriter_keeps_keys laws valid finds.2 has moved
        exact ⟨kept, finds.1, length⟩
    | inr l =>
        obtain ⟨l', moved, rfl⟩ := Outcome.map_eq_continues stepped
        exact finds.read laws valid has moved
  · intro i now thread state after shared has finds stepped
    cases now with
    | inl w =>
        have moved := Outcome.map_eq_returns stepped
        have unchanged : after = state := by
          simp only [bgWriter] at moved
          split at moved
          · split at moved
            · cases moved
              rfl
            · cases moved
          · simp only [writerPut] at moved
            split at moved
            · cases moved
            · split at moved <;> cases moved
        exact ⟨unchanged ▸ has, fun reader => absurd finds.1 (Nat.ne_of_gt reader)⟩
    | inr l =>
        obtain ⟨rfl, message⟩ := finds.leave (Outcome.map_eq_returns stepped)
        exact ⟨has, fun _ => message⟩

end Readers

/-- `ReadWhileWriting` over a store that has all keys below `FLAGS_num`, with any number of
readers and every interleaving with the writer's puts: in every state the store binds the
keys it bound at the start, and a reader that has returned reports every one of its reads as
found.
-/
theorem readWhileWriting_finds_all {E : Engine} {V : E.View} (laws : E.CmapLaws V)
    {flags : Flags} (valid : MixedFlags flags) {db : E.Db} {path : String}
    {start : E.State} {contents : Contents} (live : V.Live start db path contents)
    (bound : ∀ k < flags.num.toNat,
      Readable (V.fits · maxValLen) contents (sequentialKey flags.keySize k))
    {n : Nat} {s : System (readWhileWriting flags (.reset flags) (wrapperKV E ⟨some db⟩)) n}
    (reachable : Reachable System.step
      (System.init (readWhileWriting flags (.reset flags) (wrapperKV E ⟨some db⟩)) n start) s)
    : (∃ now, V.Live s.store db path now ∧ now.keys = contents.keys
        ∧ ∀ k < flags.num.toNat,
            Readable (V.fits · maxValLen) now (sequentialKey flags.keySize k))
      ∧ ∀ i thread, 0 < i.val → s.phases i = .finished thread
          → thread.stats.message
            = foundMessage (Benchmark.reset flags).reads.toNat (Benchmark.reset flags).reads := by
  have initial := HasAllKeys.of_bound live bound
  obtain ⟨has, finds⟩ :=
    (readerFinds_keeps laws valid n).of_reachable ⟨initial, fun _ => trivial⟩ reachable
  refine ⟨has.bound, ?_⟩
  intro i thread reader finished
  have message := finds i
  rw [finished] at message
  exact message reader

/-- The writer puts a key, then the reader makes both of its calls. -/
def writerFirst : List Action :=
  [.main, .main, .main, .worker 0, .worker 1, .main] ++ List.replicate 4 (.worker 0)
    ++ List.replicate 5 (.worker 1)

/-- Witness: a reader of two keys behind a writer that has put one of them. -/
theorem readWhileWriting_finds_all_two
    : ∃ s, execute System.step writerFirst
          (System.init (readWhileWriting ⟨2, 2, 1, 1, 0⟩ (.reset ⟨2, 2, 1, 1, 0⟩)
            (wrapperKV tableEngine ⟨some 0⟩)) 2 (openedTable twoKeyStore)) = some s
      ∧ (∃ w : WriterState, s.workers 0 = .running (.inl w) ∧ w.written = 1)
      ∧ ∃ thread, s.phases 1 = .finished thread
        ∧ thread.stats.message = "(2 of 2 found)" := by
  have valid : MixedFlags ⟨2, 2, 1, 1, 0⟩ := by
    constructor <;> decide
  have ends : (execute System.step writerFirst
        (System.init (readWhileWriting ⟨2, 2, 1, 1, 0⟩ (.reset ⟨2, 2, 1, 1, 0⟩)
          (wrapperKV tableEngine ⟨some 0⟩)) 2 (openedTable twoKeyStore))).map
          (fun s => ((s.workers 1).stage, match s.workers 0 with
            | .running (.inl (w : WriterState)) => w.written
            | _ => 0))
      = some (5, 1) := by
    decide +kernel
  obtain ⟨s, executed, reached⟩ := Option.map_eq_some_iff.mp ends
  obtain ⟨stage, count⟩ := Prod.mk.inj reached
  have put : ∃ w : WriterState, s.workers 0 = .running (.inl w) ∧ w.written = 1 := by
    split at count
    · next w writing => exact ⟨w, writing, count⟩
    · cases count
  have returned : ∃ thread, s.phases 1 = .finished thread := by
    cases here : s.workers 1 with
    | returned thread => exact ⟨thread, phases_of_worker here⟩
    | _ => simp [here, Worker.stage] at stage
  obtain ⟨thread, finished⟩ := returned
  have finds := (readWhileWriting_finds_all tableEngine_cmapLaws valid
    (openedTable_live twoKeyStore) twoKeyStore_bound ⟨_, executed⟩).2
  exact ⟨s, executed, put, thread, finished, finds 1 thread (by decide) finished⟩

end PMKVLab.Bench
