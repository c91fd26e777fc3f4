import PMKVLab.Bench.LoopRuns

/-! `ReadWhileWriting`: thread 0 writes in the background until the readers are done. Its
loop has two scheduling points, the check of the shared counters under the mutex and the
put.
-/

namespace PMKVLab.Bench

open PMKVLab.Library PMKVLab.Store

-----------------------------------------------------------------------------------------
-- Random data
-----------------------------------------------------------------------------------------

/-- `test::RandomString`: printable characters, from ' ' to '~'. -/
def randomString : Nat → Random → Bytes × Random
  | 0, rnd => ([], rnd)
  | len + 1, rnd =>
      let (value, next) := rnd.next
      let (rest, last) := randomString len next
      (UInt8.ofNat (32 + value % 95) :: rest, last)

/-- `test::CompressibleString` with `FLAGS_compression_ratio`, which is 1.0: the raw data
already has the asked length, unless that is 0.
-/
def compressibleString (len : Nat) (rnd : Random) : Bytes × Random :=
  let (raw, next) := randomString (max len 1) rnd
  (raw.take len, next)

/-- `RandomGenerator`. -/
structure RandomGenerator where
  data : Bytes
  pos : Nat

namespace RandomGenerator

/-- The constructor's loop; `fuel` bounds the pieces of 100 bytes still to append. -/
def appendPieces (target : Nat) : Nat → Bytes → Random → Bytes
  | 0, data, _ => data
  | fuel + 1, data, rnd =>
      if data.length < target then
        let (piece, next) := compressibleString 100 rnd
        appendPieces target fuel (data ++ piece) next
      else data

def make (valueSize : Int) : RandomGenerator :=
  let target := (max 1048576 valueSize).toNat
  ⟨appendPieces target target [] (Random.make 301), 0⟩

/-- `Generate`: the next window of the data, from the start again when it does not fit.
Positions are `unsigned int`.
-/
def generate (gen : RandomGenerator) (len : Nat) : Bytes × RandomGenerator :=
  let pos := if (gen.pos + len) % 2 ^ 32 > gen.data.length then 0 else gen.pos
  let next := (pos + len) % 2 ^ 32
  ((gen.data.drop (next - len)).take len, { gen with pos := next })

end RandomGenerator

-----------------------------------------------------------------------------------------
-- The writer and the readers
-----------------------------------------------------------------------------------------

/-- Where the writer's loop is. -/
inductive WriterPoint
  | check
  | put
deriving DecidableEq, Repr

/-- The locals of `BGWriter`. -/
structure WriterState where
  thread : ThreadState
  gen : RandomGenerator
  bytes : Nat
  key : Bytes
  written : Nat
  point : WriterPoint

section Methods

variable {Store : Type} (flags : Flags) (bm : Benchmark) (kv : KV Store)

/-- The put of one round. The remainder by a zero flag traps, and with a negative length,
which becomes a large `unsigned int`, `Generate` gives a window that ends behind the data:
its assertion is compiled out, and reading the window is undefined. Both end the process here.
-/
def writerPut (w : WriterState) (store : Store) : Outcome WriterState Store :=
  if toUInt32 flags.num = 0 ∨ bm.valueSize < 0 then .aborts
  else
    let (value, rand) := w.thread.rand.next
    let key := generateKeyFromInt bm.keySize (value % toUInt32 flags.num) w.key
    let (data, gen) := w.gen.generate bm.valueSize.toNat
    match kv.put key data store with
    | (.ok .ok, next) =>
        .continues
          { thread := { w.thread with rand := rand }
            gen := gen
            bytes := w.bytes + key.length + bm.valueSize.toNat
            key := key
            written := (w.written + 1) % 2 ^ 32
            point := .check } next
    | _ => .aborts

/-- `BGWriter` with `kWrite`. -/
def bgWriter : Method Store where
  Local := WriterState
  thread w := w.thread
  init thread :=
    (allocateKey bm.keySize).map (fun key => ⟨thread, .make flags.valueSize, 0, key, 0, .check⟩)
  step shared w store :=
    match w.point with
    | .check =>
        if shared.numDone + 1 ≥ shared.numInitialized then
          .returns { w.thread with stats := w.thread.stats.addBytes w.bytes } store
        else .continues { w with point := .put } store
    | .put => writerPut flags bm kv w store

/-- A step of one of two methods, in the sum of their local states. -/
def Outcome.map {Local Other : Type} (inject : Local → Other)
    : Outcome Local Store → Outcome Other Store
  | .continues next store => .continues (inject next) store
  | .returns thread store => .returns thread store
  | .aborts => .aborts

def readWhileWriting : Method Store where
  Local := WriterState ⊕ LoopState
  thread
    | .inl w => w.thread
    | .inr l => l.thread
  init thread :=
    if thread.tid > 0 then ((readRandom flags bm kv).init thread).map .inr
    else ((bgWriter flags bm kv).init thread).map .inl
  step shared now store :=
    match now with
    | .inl w => ((bgWriter flags bm kv).step shared w store).map .inl
    | .inr l => ((readRandom flags bm kv).step shared l store).map .inr

end Methods

-----------------------------------------------------------------------------------------
-- The readers
-----------------------------------------------------------------------------------------

section Readers

variable {Store : Type} {flags : Flags} {bm : Benchmark} {kv : KV Store} {n : Nat}

/-- A step of a method in a sum is a step of that method. -/
theorem Outcome.map_eq_continues {Local Other : Type} {inject : Local → Other}
    {outcome : Outcome Local Store} {next : Other} {store : Store}
    (mapped : outcome.map inject = .continues next store)
    : ∃ local', outcome = .continues local' store ∧ next = inject local' := by
  cases outcome with
  | continues now store' =>
      cases mapped
      exact ⟨now, rfl, rfl⟩
  | returns | aborts => cases mapped

theorem Outcome.map_eq_returns {Local Other : Type} {inject : Local → Other}
    {outcome : Outcome Local Store} {thread : ThreadState} {store : Store}
    (mapped : outcome.map inject = .returns thread store)
    : outcome = .returns thread store := by
  cases outcome with
  | returns thread' store' =>
      cases mapped
      rfl
  | continues | aborts => cases mapped

/-- Thread 0 is the writer, the others read; a reader has finished as many operations as
its loop has made iterations.
-/
def ReaderCounts (tid : Nat) : Phase (readWhileWriting flags bm kv) → Prop
  | .waiting => True
  | .running (.inl (_ : WriterState)) => tid = 0
  | .running (.inr (l : LoopState)) =>
      0 < tid ∧ l.thread.stats.done = l.i ∧ l.i ≤ bm.reads.toNat
  | .finished thread => 0 < tid → thread.stats.done = bm.reads.toNat

theorem readWhileWriting_keeps
    : (readWhileWriting flags bm kv).Keeps n
        (fun phases _ => ∀ i : Fin n, ReaderCounts i (phases i)) := by
  apply Method.keeps_each
  · intro i now entered
    simp only [readWhileWriting] at entered
    split at entered
    · next reader =>
      obtain ⟨l, started, rfl⟩ := Option.map_eq_some_iff.mp entered
      obtain ⟨key, _, rfl⟩ := Option.map_eq_some_iff.mp started
      exact ⟨reader, rfl, Nat.zero_le _⟩
    · next writer =>
      obtain ⟨w, _, rfl⟩ := Option.map_eq_some_iff.mp entered
      exact Nat.eq_zero_of_not_pos writer
  · intro i now next store after shared before stepped
    cases now with
    | inl w =>
        obtain ⟨w', _, rfl⟩ := Outcome.map_eq_continues stepped
        exact before
    | inr l =>
        obtain ⟨l', moved, rfl⟩ := Outcome.map_eq_continues stepped
        obtain ⟨more, bytes, found, _, rfl⟩ := forLoop_continues moved
        obtain ⟨reader, done, bound⟩ := before
        have kept := (nextKey_thread flags bm false l).2
        have more : (l.i : Int) < bm.reads := more
        refine ⟨reader, ?_, ?_⟩
        · exact congrArg (fun stats => Stats.done stats + 1) kept |>.trans (by rw [done]; rfl)
        · simp only [LoopState.finishOp]
          omega
  · intro i now thread store after shared before stepped
    cases now with
    | inl w =>
        intro reader
        exact absurd before (Nat.ne_of_gt reader)
    | inr l =>
        obtain ⟨done, rfl, _⟩ := forLoop_returns (Outcome.map_eq_returns stepped)
        obtain ⟨reader, counted, bound⟩ := before
        have done : ¬ (l.i : Int) < bm.reads := done
        intro _
        have last : l.i = bm.reads.toNat := by omega
        exact counted.trans last

end Readers

-----------------------------------------------------------------------------------------
-- The writer
-----------------------------------------------------------------------------------------

section Writer

variable {Store : Type} {flags : Flags} {bm : Benchmark} {kv : KV Store} {r : Nat}
  {s after : System (readWhileWriting flags bm kv) (r + 1)}

/-- While the writer is in its method, its exit condition holds exactly when all readers
have ended.
-/
theorem exit_iff (counters : Counters s) {now : WriterState ⊕ LoopState}
    (running : s.workers 0 = .running now)
    : s.shared.numDone + 1 ≥ s.shared.numInitialized
      ↔ ∀ i, i ≠ 0 → 7 ≤ s.stages i := by
  have stage : s.stages 0 = 4 := System.stages_of_worker running
  have start := counters.start_of_worker running (by simp [Worker.stage])
  have everyone : reached 2 s.stages = r + 1 := reached_eq_iff.mpr (counters.started start)
  rw [others_reached_iff (by omega), counters.done, counters.initialized, everyone]

/-- The writer's check leaves the loop exactly on the exit condition. -/
theorem bgWriter_returns {shared : SharedState} {w : WriterState} {store left : Store}
    {thread : ThreadState}
    (stepped : (bgWriter flags bm kv).step shared w store = .returns thread left)
    : shared.numDone + 1 ≥ shared.numInitialized := by
  simp only [bgWriter] at stepped
  split at stepped
  · split at stepped
    · next leaves => exact leaves
    · cases stepped
  · simp only [writerPut] at stepped
    split at stepped
    · cases stepped
    · split at stepped <;> cases stepped

/-- Once the writer has left its loop, every reader has ended. -/
structure WriterLast (s : System (readWhileWriting flags bm kv) (r + 1)) : Prop where
  coherent : Coherent s
  counts : ∀ i : Fin (r + 1), ReaderCounts i (s.phases i)
  last : ∀ thread, s.phases 0 = .finished thread → ∀ i, i ≠ 0 → 7 ≤ s.stages i

/-- Every transition keeps the writer last. Witness: only the writer's own return ends its
phase, and that return has seen the exit condition.
-/
theorem WriterLast.preserved (inv : WriterLast s) {productive : Bool}
    (transition : Transition s productive after)
    : WriterLast after := by
  have counters := inv.coherent.counters
  have next := transition.methodStep counters
  refine ⟨inv.coherent.preserved transition,
    readWhileWriting_keeps.methodStep inv.counts next, ?_⟩
  intro thread finished i other
  suffices before : 7 ≤ s.stages i from Nat.le_trans before (transition.stages_le counters i)
  cases next with
  | protocol phases _ => exact inv.last thread (phases ▸ finished) i other
  | begins j now _ _ phases _ =>
      rw [phases] at finished
      by_cases writer : (0 : Fin (r + 1)) = j
      · subst writer
        simp at finished
      · exact inv.last thread (by simpa [writer] using finished) i other
  | continues j now _ _ _ phases =>
      rw [phases] at finished
      by_cases writer : (0 : Fin (r + 1)) = j
      · subst writer
        simp at finished
      · exact inv.last thread (by simpa [writer] using finished) i other
  | returns j now _ running stepped phases =>
      rw [phases] at finished
      by_cases writer : (0 : Fin (r + 1)) = j
      · subst writer
        have counted := inv.counts 0
        rw [running] at counted
        cases now with
        | inl w =>
            have leaves := bgWriter_returns (Outcome.map_eq_returns stepped)
            exact (exit_iff counters (worker_of_running running)).mp leaves i other
        | inr l => exact absurd counted.1 (Nat.lt_irrefl 0)
      · exact inv.last thread (by simpa [writer] using finished) i other

theorem WriterLast.of_reachable {store : Store}
    (reachable : Reachable System.step
      (System.init (readWhileWriting flags bm kv) (r + 1) store) s)
    : WriterLast s := by
  apply reachable.invariant WriterLast
  · exact ⟨⟨.init _ _ store, .init _ _ store⟩, fun _ => trivial, fun _ finished => nomatch finished⟩
  · intro action before next inv taken
    exact inv.preserved (System.step_transition taken).2

/-- An ended thread with the last stage is done with the statistics of its phase. -/
theorem done_of_stage {n : Nat} {M : Method Store} {s : System M n} {i : Fin n}
    (ended : 7 ≤ s.stages i)
    : ∃ thread, s.workers i = .done thread ∧ s.phases i = .finished thread := by
  cases here : s.workers i with
  | done thread => exact ⟨thread, rfl, phases_of_worker here⟩
  | _ => simp [System.stages, here, Worker.stage] at ended

/-- When all readers have ended, the writer's check leaves the loop. -/
theorem check_leaves (counters : Counters s) {w : WriterState}
    (running : s.workers 0 = .running (.inl w)) (readers : ∀ i, i ≠ 0 → 7 ≤ s.stages i)
    (check : w.point = .check)
    : (readWhileWriting flags bm kv).step s.shared (.inl w) s.store
      = .returns { w.thread with stats := w.thread.stats.addBytes w.bytes } s.store := by
  have leaves := (exit_iff counters running).mpr readers
  simp [readWhileWriting, bgWriter, check, leaves, Outcome.map]

/-- After a put the writer is back at its check, or the process has ended. -/
theorem put_returns_to_check {shared : SharedState} {w : WriterState} (put : w.point = .put)
    (store : Store)
    : (readWhileWriting flags bm kv).step shared (.inl w) store = .aborts
      ∨ ∃ (w' : WriterState) (next : Store), w'.point = .check
          ∧ (readWhileWriting flags bm kv).step shared (.inl w) store
            = .continues (.inl w') next := by
  simp only [readWhileWriting, bgWriter, put, writerPut]
  split
  · exact .inl rfl
  · split
    · exact .inr ⟨_, _, rfl, rfl⟩
    · exact .inl rfl

/-- The step of a thread in its method is the method's. -/
theorem step_running {n : Nat} {M : Method Store} {s : System M n} (alive : s.aborted = false)
    {i : Fin n} {now : M.Local} (running : s.workers i = .running now)
    : ∃ final, s.step (.worker i) = some final
      ∧ match M.step s.shared now s.store with
        | .continues next _ => final.aborted = false ∧ final.workers i = .running next
        | .returns thread _ => final.workers i = .returned thread
        | .aborts => final.aborted = true := by
  refine ⟨s.advance i now, by simp [System.step, alive, System.workerStep, running], ?_⟩
  unfold System.advance
  cases M.step s.shared now s.store with
  | continues next store => exact ⟨alive, Function.update_self i _ s.workers⟩
  | returns thread store => exact Function.update_self i _ s.workers
  | aborts => rfl

/-- When all readers have ended, a check by the writer takes it out of its loop. -/
theorem check_step (coherent : Coherent s) (alive : s.aborted = false) {w : WriterState}
    (running : s.workers 0 = .running (.inl w)) (readers : ∀ i, i ≠ 0 → 7 ≤ s.stages i)
    (check : w.point = .check)
    : ∃ final thread, s.step (.worker 0) = some final ∧ final.workers 0 = .returned thread := by
  obtain ⟨final, taken, left⟩ := step_running alive running
  rw [check_leaves coherent.counters running readers check] at left
  exact ⟨final, _, taken, left⟩

/-- When all readers have ended, at most two steps of the writer take it out of its loop,
unless its put ends the process.
-/
theorem writer_leaves_soon (coherent : Coherent s) (alive : s.aborted = false) {w : WriterState}
    (running : s.workers 0 = .running (.inl w)) (readers : ∀ i, i ≠ 0 → 7 ≤ s.stages i)
    : ∃ steps ≤ 2, ∃ final,
        execute System.step (List.replicate steps (.worker 0)) s = some final
        ∧ (final.aborted = true ∨ ∃ thread, final.workers 0 = .returned thread) := by
  cases point : w.point with
  | check =>
      obtain ⟨final, thread, taken, left⟩ := check_step coherent alive running readers point
      exact ⟨1, by omega, final, by simp [execute, taken], .inr ⟨thread, left⟩⟩
  | put =>
      obtain ⟨middle, taken, moved⟩ := step_running alive running
      have first : s.step (.worker 0) = some middle := taken
      rcases put_returns_to_check point s.store with aborts | ⟨w', next, check, continues⟩
      · rw [aborts] at moved
        exact ⟨1, by omega, middle, by simp [execute, first], .inl moved⟩
      · rw [continues] at moved
        have transition := (System.step_transition first).2
        have still : ∀ i, i ≠ 0 → 7 ≤ middle.stages i := fun i other =>
          Nat.le_trans (readers i other) (transition.stages_le coherent.counters i)
        obtain ⟨final, thread, second, left⟩ :=
          check_step (coherent.preserved transition) moved.1 moved.2 still check
        exact ⟨2, by omega, final, by simp [execute, first, second], .inr ⟨thread, left⟩⟩

end Writer

/-- The background writer stays for the whole measurement, with `r` readers and every
interleaving: when it has left its loop every reader has finished all of its reads, and
when all readers have counted themselves done its next check leaves the loop, at most two
of its own steps away.
-/
theorem backgroundWriter_stays {Store : Type} (flags : Flags) (bm : Benchmark)
    (kv : KV Store) (r : Nat) (store : Store)
    (s : System (readWhileWriting flags bm kv) (r + 1))
    (reachable : Reachable System.step
      (System.init (readWhileWriting flags bm kv) (r + 1) store) s)
    : ((∃ thread, s.phases 0 = .finished thread)
        → ∀ i, i ≠ 0 → ∃ thread, s.workers i = .done thread
          ∧ thread.stats.done = bm.reads.toNat)
      ∧ ((∀ i, i ≠ 0 → (s.workers i).ended = true)
          → ∀ w : WriterState, s.workers 0 = .running (.inl w)
            → (w.point = .check
                → ∃ thread, (readWhileWriting flags bm kv).step s.shared (.inl w) s.store
                  = .returns thread s.store)
              ∧ (s.aborted = false
                → ∃ steps ≤ 2, ∃ final,
                    execute System.step (List.replicate steps (.worker 0)) s = some final
                    ∧ (final.aborted = true
                      ∨ ∃ thread, final.workers 0 = .returned thread))) := by
  have inv := WriterLast.of_reachable reachable
  refine ⟨?_, ?_⟩
  · intro left i other
    obtain ⟨thread, finished⟩ := left
    obtain ⟨reader, done, phase⟩ := done_of_stage (inv.last thread finished i other)
    have counted := inv.counts i
    rw [phase] at counted
    refine ⟨reader, done, counted ?_⟩
    exact Nat.pos_of_ne_zero (fun zero => other (Fin.ext zero))
  · intro ended w running
    have readers : ∀ i, i ≠ 0 → 7 ≤ s.stages i := by
      intro i other
      have last := ended i other
      cases here : s.workers i with
      | done thread => simp [System.stages, here, Worker.stage]
      | _ => simp [here, Worker.ended] at last
    refine ⟨?_, fun alive => writer_leaves_soon inv.coherent alive running readers⟩
    intro check
    exact ⟨_, check_leaves inv.coherent.counters running readers check⟩

/-- A run of one reader next to the writer, which waits for the reader. -/
def oneReaderSchedule : List Action :=
  [.main, .main, .main, .worker 0, .worker 1, .main, .worker 0, .worker 0, .worker 1,
    .worker 1, .worker 1, .worker 1, .worker 1, .worker 1, .worker 0]

/-- The writer has left its loop in this run, so the reader has made its read. -/
theorem oneReader_finishes_before_writer
    : ∃ s, execute System.step oneReaderSchedule
          (System.init
            (readWhileWriting ⟨1, 1, 1, 1, 1⟩ (.reset ⟨1, 1, 1, 1, 1⟩) (mapKV (· < maxValLen)))
            2 ∅)
        = some s
      ∧ ∃ thread, s.workers 1 = .done thread ∧ thread.stats.done = 1 := by
  have ends : (execute System.step oneReaderSchedule
        (System.init
          (readWhileWriting ⟨1, 1, 1, 1, 1⟩ (.reset ⟨1, 1, 1, 1, 1⟩) (mapKV (· < maxValLen)))
          2 ∅)).map (fun s => (s.workers 0).stage)
      = some 5 := by
    decide
  obtain ⟨s, executed, stage⟩ := Option.map_eq_some_iff.mp ends
  have left : ∃ thread, s.phases 0 = .finished thread := by
    cases here : s.workers 0 with
    | returned thread => exact ⟨thread, phases_of_worker here⟩
    | _ => simp [here, Worker.stage] at stage
  have stays := backgroundWriter_stays _ _ _ 1 ∅ s ⟨oneReaderSchedule, executed⟩
  exact ⟨s, executed, stays.1 left 1 (by decide)⟩

end PMKVLab.Bench
