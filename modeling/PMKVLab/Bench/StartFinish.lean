import PMKVLab.Bench.Barriers
import PMKVLab.Bench.Operations

/-! The start and finish protocol of `RunBenchmark`: one condition variable serves both
barriers, and no wake-up is lost.
-/

namespace PMKVLab.Bench

open PMKVLab.Library PMKVLab.Store

variable {Store : Type} {M : Method Store} {n : Nat}

-----------------------------------------------------------------------------------------
-- No wake-up is lost
-----------------------------------------------------------------------------------------

/-- Whoever sleeps on the condition variable waits for a condition that is still false. -/
structure Wakeful (s : System M n) : Prop where
  workers : ∀ i, s.workers i = .asleep → s.shared.start = false
  mainInit : s.main = .asleepInit → s.shared.numInitialized < n
  mainDone : s.main = .asleepDone → s.shared.numDone < n

section Wakeful

variable {s after : System M n} {i : Fin n}

theorem Worker.wake_ne_asleep (worker : Worker M) : worker.wake ≠ .asleep := by
  cases worker <;> simp [Worker.wake]

theorem MainPhase.wake_awake (main : MainPhase)
    : main.wake ≠ .asleepInit ∧ main.wake ≠ .asleepDone := by
  cases main <;> simp [MainPhase.wake]

/-- Right after a broadcast nobody sleeps. -/
theorem Wakeful.signalAll (s : System M n) : Wakeful s.signalAll where
  workers i asleep := absurd asleep (Worker.wake_ne_asleep (s.workers i))
  mainInit asleep := absurd asleep s.main.wake_awake.1
  mainDone asleep := absurd asleep s.main.wake_awake.2

/-- A worker goes to sleep only when `start` is false. -/
theorem Wakeful.replace (inv : Wakeful s) {worker : Worker M}
    (workers : after.workers = Function.update s.workers i worker)
    (main : after.main = s.main) (shared : after.shared = s.shared)
    (waits : worker = .asleep → s.shared.start = false)
    : Wakeful after where
  workers := by
    intro j asleep
    rw [shared]
    by_cases same : j = i
    · subst same
      exact waits (by simpa [workers] using asleep)
    · exact inv.workers j (by simpa [workers, same] using asleep)
  mainInit := by
    rw [main, shared]
    exact inv.mainInit
  mainDone := by
    rw [main, shared]
    exact inv.mainDone

/-- A critical section of a worker that changes a counter without broadcasting keeps the
main thread's condition false.
-/
theorem Wakeful.count (inv : Wakeful s) (shared : SharedState) (condition : Prop)
    [Decidable condition] (start : shared.start = s.shared.start)
    (quiet : ¬ condition
      → (s.shared.numInitialized < n → shared.numInitialized < n)
        ∧ (s.shared.numDone < n → shared.numDone < n))
    : Wakeful ((s.setShared shared).signalIf condition) := by
  unfold System.signalIf
  split
  · exact .signalAll _
  · next unsignalled =>
    obtain ⟨initialized, done⟩ := quiet unsignalled
    exact {
      workers := fun i asleep => start.trans (inv.workers i asleep)
      mainInit := fun asleep => initialized (inv.mainInit asleep)
      mainDone := fun asleep => done (inv.mainDone asleep)
    }

/-- Waiting for `start` puts a worker to sleep only while it is false. -/
theorem Wakeful.awaitStart (inv : Wakeful s) (i : Fin n) : Wakeful (s.awaitStart i) := by
  rw [System.awaitStart_eq]
  refine inv.replace rfl rfl rfl ?_
  cases start : s.shared.start <;> simp

/-- Waiting for the end puts the main thread to sleep only while a thread is not done. -/
theorem Wakeful.awaitDone (inv : Wakeful s) : Wakeful s.awaitDone := by
  unfold System.awaitDone
  split
  · next less => exact ⟨inv.workers, by simp, fun _ => less⟩
  · exact ⟨inv.workers, by simp, by simp⟩

/-- Every transition keeps sleepers waiting for a false condition. -/
theorem Wakeful.preserved (inv : Wakeful s) (counters : Counters s) {productive : Bool}
    (transition : Transition s productive after)
    : Wakeful after := by
  have total := counters.total
  cases transition with
  | spawn i here =>
      have moved : Wakeful (s.setWorker i .initializing) := inv.replace rfl rfl rfl (by simp)
      exact ⟨moved.workers, by simp [System.spawn], by simp [System.spawn]⟩
  | awaitInitialized k here =>
      unfold System.awaitInitialized
      split
      · next less => exact ⟨inv.workers, fun _ => less, by simp⟩
      · exact (Wakeful.signalAll _).awaitDone
  | awaitDone here => exact inv.awaitDone
  | reportThread i here =>
      exact ⟨inv.workers, by simp [System.reportThread], by simp [System.reportThread]⟩
  | mainReturns k here all => exact ⟨inv.workers, by simp, by simp⟩
  | wakeMain here =>
      exact ⟨inv.workers, fun asleep => absurd asleep s.main.wake_awake.1,
        fun asleep => absurd asleep s.main.wake_awake.2⟩
  | enterBarrier i here =>
      have counted := inv.count
        { s.shared with numInitialized := s.shared.numInitialized + 1 }
        (s.shared.numInitialized + 1 ≥ s.shared.total) rfl
        (fun quiet => ⟨fun _ => by simp only; omega, id⟩)
      exact counted.awaitStart i
  | awaitStart i here => exact inv.awaitStart i
  | begins i here now entered => exact inv.replace rfl rfl rfl (by simp)
  | continues i now next store here stepped => exact inv.replace rfl rfl rfl (by simp)
  | returns i now thread store here stepped => exact inv.replace rfl rfl rfl (by simp)
  | aborts i cause => exact ⟨inv.workers, inv.mainInit, inv.mainDone⟩
  | stop i thread here => exact inv.replace rfl rfl rfl (by simp)
  | finish i thread here =>
      have counted := inv.count
        { s.shared with numDone := s.shared.numDone + 1 }
        (s.shared.numDone + 1 ≥ s.shared.total) rfl
        (fun quiet => ⟨id, fun _ => by simp only; omega⟩)
      exact counted.replace rfl rfl rfl (by simp)
  | wakeWorker i here => exact inv.replace rfl rfl rfl (by simp)

theorem Wakeful.of_reachable {store : Store}
    (reachable : Reachable System.step (System.init M n store) s)
    : Wakeful s := by
  have both : Coherent s ∧ Wakeful s := by
    apply reachable.invariant (fun state => Coherent state ∧ Wakeful state)
    · exact ⟨⟨.init M n store, .init M n store⟩,
        by simp [System.init], by simp [System.init], by simp [System.init]⟩
    · intro action before next inv taken
      have transition := (System.step_transition taken).2
      exact ⟨inv.1.preserved transition, inv.2.preserved inv.1.counters transition⟩
  exact both.2

end Wakeful

section Progress

variable {s : System M n}

/-- A worker that has been started and is neither asleep nor done can run. -/
theorem worker_enabled (alive : s.aborted = false) {i : Fin n} (started : 1 ≤ s.stages i)
    (awake : s.workers i ≠ .asleep) (unfinished : s.stages i < 7)
    : (s.step (.worker i)).isSome = true := by
  have taken : s.step (.worker i) = s.workerStep i := by
    simp [System.step, alive]
  rw [taken]
  unfold System.workerStep
  cases here : s.workers i with
  | notStarted => simp [System.stages, here, Worker.stage] at started
  | asleep => exact absurd here awake
  | done thread => simp [System.stages, here, Worker.stage] at unfinished
  | _ => rfl

/-- The main thread can run unless it sleeps or has returned. -/
theorem main_enabled (alive : s.aborted = false) (init : s.main ≠ .asleepInit)
    (done : s.main ≠ .asleepDone) (running : s.main ≠ .finished)
    : (s.step .main).isSome = true := by
  have taken : s.step .main = s.mainStep := by
    simp [System.step, alive]
  rw [taken]
  unfold System.mainStep
  cases here : s.main with
  | spawning k => by_cases less : k < n <;> simp [less]
  | reporting k => by_cases less : k < n <;> simp [less]
  | awakeInit | awakeDone => rfl
  | asleepInit => exact absurd here init
  | asleepDone => exact absurd here done
  | finished => exact absurd here running

/-- Unless the process has ended or the benchmark is over, some thread can run. Witness:
a sleeping main thread waits for a thread that has not reached the barrier, and that
thread does not sleep.
-/
theorem progress (coherent : Coherent s) (wakeful : Wakeful s) (alive : s.aborted = false)
    : s.Finished ∨ ∃ action : Action, action.productive = true ∧ (s.step action).isSome = true := by
  have counters := coherent.counters
  cases here : s.main with
  | asleepInit =>
      have waiting := wakeful.mainInit here
      rw [counters.initialized] at waiting
      obtain ⟨i, below⟩ := exists_below_of_reached_lt waiting
      have started : 1 ≤ s.stages i := by
        rw [counters.spawned i, here]
        exact i.isLt
      have awake : s.workers i ≠ .asleep := by
        intro asleep
        simp [System.stages, asleep, Worker.stage] at below
      exact .inr ⟨.worker i, rfl, worker_enabled alive started awake (by omega)⟩
  | asleepDone =>
      have waiting := wakeful.mainDone here
      rw [counters.done] at waiting
      obtain ⟨i, below⟩ := exists_below_of_reached_lt waiting
      have start : s.shared.start = true := counters.gate.mpr (by simp [here, MainPhase.stage])
      have entered := counters.started start i
      have awake : s.workers i ≠ .asleep := by
        intro asleep
        have closed := wakeful.workers i asleep
        rw [start] at closed
        cases closed
      exact .inr ⟨.worker i, rfl, worker_enabled alive (by omega) awake below⟩
  | finished =>
      have ended := counters.reporting (by simp [here, MainPhase.stage])
      exact .inl ⟨here, fun i => Worker.ended_of_stage (ended i)⟩
  | spawning _ | awakeInit | awakeDone | reporting _ =>
      exact .inr ⟨.main, rfl, main_enabled alive (by simp [here]) (by simp [here])
        (by simp [here])⟩

end Progress

-----------------------------------------------------------------------------------------
-- The protocol
-----------------------------------------------------------------------------------------

/-- The thread has entered its benchmark method. -/
def Worker.begun : Worker M → Bool
  | .running _ | .returned _ | .stopped _ | .done _ => true
  | _ => false

theorem Worker.begun_iff_stage (worker : Worker M) : worker.begun = true ↔ 4 ≤ worker.stage := by
  cases worker <;> simp [Worker.begun, Worker.stage]

/-- The start and finish protocol, in every reachable state of every method, number of
threads and interleaving: the counters are ordered, a method begins only after all threads
have checked in and `start` is set, each method begins once, reports follow the stops of
all threads, and some thread can run unless the benchmark is over or the process has ended.
-/
theorem runBenchmark_protocol (M : Method Store) (n : Nat) (store : Store) (s : System M n)
    (reachable : Reachable System.step (System.init M n store) s)
    : (s.shared.numDone ≤ s.shared.numInitialized
        ∧ s.shared.numInitialized ≤ s.shared.total
        ∧ s.shared.total = n)
      ∧ (∀ i, (s.workers i).begun = true
          → s.shared.numInitialized = n ∧ s.shared.start = true)
      ∧ (∀ i : Fin n, s.events.count (.began i) = if (s.workers i).begun then 1 else 0)
      ∧ (∀ before tid report, before ++ [.reported tid report] <+: s.events
          → ∀ i : Fin n, .stopped i ∈ before)
      ∧ (s.main = .finished → s.Finished
          ∧ ∀ i : Fin n, s.events.count (.began i) = 1 ∧ s.events.count (.stopped i) = 1)
      ∧ (s.aborted = false → s.Finished
          ∨ ∃ action : Action, action.productive = true ∧ (s.step action).isSome = true) := by
  have coherent := Coherent.of_reachable reachable
  have wakeful := Wakeful.of_reachable reachable
  obtain ⟨counters, traced⟩ := coherent
  refine ⟨⟨?_, ?_, counters.total⟩, ?_, ?_, traced.ordered, ?_, progress ⟨counters, traced⟩ wakeful⟩
  · rw [counters.done, counters.initialized]
    exact reached_anti (by omega) s.stages
  · rw [counters.initialized, counters.total]
    exact reached_le 2 s.stages
  · intro i begun
    have stage : 4 ≤ s.stages i := (Worker.begun_iff_stage _).mp begun
    have start := counters.barrier i (by omega)
    refine ⟨?_, start⟩
    rw [counters.initialized]
    exact reached_eq_iff.mpr (counters.started start)
  · intro i
    simp only [traced.began i, Worker.begun_iff_stage]
    rfl
  · intro finished
    have ended := counters.reporting (by simp [finished, MainPhase.stage])
    refine ⟨⟨finished, fun i => Worker.ended_of_stage (ended i)⟩, ?_⟩
    intro i
    have last := ended i
    rw [traced.began i, traced.stopped i, if_pos (by omega), if_pos (by omega)]
    exact ⟨rfl, rfl⟩

/-- Two threads that write one key each. -/
def twoWriters
    : System (writeSeq ⟨1, 1, 2, 1, 1⟩ (.reset ⟨1, 1, 2, 1, 1⟩) (mapKV (· < maxValLen))) 2 :=
  .init _ 2 ∅

/-- A complete run of the two writers, with a spurious wake-up of the main thread. -/
def twoWritersSchedule : List Action :=
  [.main, .worker 0, .main, .main, .wakeMain, .main, .worker 1, .main, .worker 0, .worker 1,
    .worker 0, .worker 1, .worker 0, .worker 1, .worker 0, .worker 1, .worker 0, .worker 1,
    .worker 0, .worker 1, .main, .main, .main, .main]

/-- The run is reachable and finished, so each of its two threads began and stopped once.
-/
theorem twoWriters_begin_and_stop_once
    : ∃ s, execute System.step twoWritersSchedule twoWriters = some s
      ∧ s.main = .finished
      ∧ s.shared.numInitialized ≤ s.shared.total
      ∧ ∀ i : Fin 2, s.events.count (.began i) = 1 ∧ s.events.count (.stopped i) = 1 := by
  have ends : (execute System.step twoWritersSchedule twoWriters).map System.main
      = some .finished := by
    decide
  obtain ⟨s, executed, finished⟩ := Option.map_eq_some_iff.mp ends
  have protocol := runBenchmark_protocol _ 2 ∅ s ⟨twoWritersSchedule, executed⟩
  exact ⟨s, executed, finished, protocol.1.2.1, (protocol.2.2.2.2.1 finished).2⟩

end PMKVLab.Bench
