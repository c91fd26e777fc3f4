import PMKVLab.Bench.Threads
import PMKVLab.Library.Transitions

/-! The start and finish protocol of `RunBenchmark` and `ThreadBody`: one mutex, one
condition variable, and two barriers. Critical sections are atomic up to the next
`cv.Wait()`, broadcasts wake every sleeper, and sleepers may also wake spuriously.
-/

namespace PMKVLab.Bench

open PMKVLab.Library

structure SharedState where
  total : Nat
  numInitialized : Nat
  numDone : Nat
  start : Bool
deriving DecidableEq, Repr

/-- What one step of a benchmark method does: go on, return with the thread's final state,
or end the process (an uncaught exception, `exit(1)` or a trap).
-/
inductive Outcome (Local Store : Type)
  | continues (next : Local) (store : Store)
  | returns (thread : ThreadState) (store : Store)
  | aborts

/-- A benchmark method, run by one thread in atomic steps on the shared store. `init` is
`none` when the method's setup throws; `thread` is the thread state inside a local state.
-/
structure Method (Store : Type) where
  Local : Type
  thread : Local → ThreadState
  init : ThreadState → Option Local
  step : SharedState → Local → Store → Outcome Local Store

/-- Where a thread is in `ThreadBody`. `asleep` is inside `cv.Wait()`, `awake` has been
woken but has not taken the mutex again, `released` has left the barrier.
-/
inductive Worker {Store : Type} (M : Method Store)
  | notStarted
  | initializing
  | asleep
  | awake
  | released
  | running (now : M.Local)
  | returned (thread : ThreadState)
  | stopped (thread : ThreadState)
  | done (thread : ThreadState)

/-- Where the main thread is in `RunBenchmark`: starting thread `i`, inside one of its two
wait loops, reporting thread `i`, or returned.
-/
inductive MainPhase
  | spawning (i : Nat)
  | asleepInit
  | awakeInit
  | asleepDone
  | awakeDone
  | reporting (i : Nat)
  | finished
deriving DecidableEq, Repr

/-- Observable events: a thread begins its method, has executed `stats.Stop()`, is reported.
-/
inductive Event
  | began (tid : Nat)
  | stopped (tid : Nat)
  | reported (tid : Nat) (report : Report)
deriving DecidableEq, Repr

def Event.report? : Event → Option Report
  | .reported _ report => some report
  | _ => none

/-- Scheduler choices: run the main thread or a worker up to its next scheduling point, or
wake a sleeper for no reason.
-/
inductive Action
  | main
  | worker (i : Nat)
  | wakeMain
  | wakeWorker (i : Nat)
deriving DecidableEq, Repr

/-- Not a spurious wake-up. -/
def Action.productive : Action → Bool
  | .main | .worker _ => true
  | .wakeMain | .wakeWorker _ => false

section Phases

variable {Store : Type} {M : Method Store}

def Worker.wake : Worker M → Worker M
  | .asleep => .awake
  | other => other

def MainPhase.wake : MainPhase → MainPhase
  | .asleepInit => .awakeInit
  | .asleepDone => .awakeDone
  | other => other

/-- `ThreadBody` has left its last critical section. -/
def Worker.ended : Worker M → Bool
  | .done _ => true
  | _ => false

/-- The statistics the main thread finds in the thread's state. -/
def Worker.stats : Worker M → Stats
  | .running now => (M.thread now).stats
  | .returned thread | .stopped thread | .done thread => thread.stats
  | _ => .start

end Phases

/-- The whole process while one benchmark runs in `n` threads. -/
structure System {Store : Type} (M : Method Store) (n : Nat) where
  shared : SharedState
  main : MainPhase
  workers : Fin n → Worker M
  store : Store
  events : List Event
  aborted : Bool

namespace System

variable {Store : Type} {M : Method Store} {n : Nat}

def init (M : Method Store) (n : Nat) (store : Store) : System M n where
  shared := ⟨n, 0, 0, false⟩
  main := .spawning 0
  workers _ := .notStarted
  store := store
  events := []
  aborted := false

def setWorker (s : System M n) (i : Fin n) (worker : Worker M) : System M n :=
  { s with workers := Function.update s.workers i worker }

/-- `cv.SignalAll()`. -/
def signalAll (s : System M n) : System M n :=
  { s with workers := fun i => (s.workers i).wake, main := s.main.wake }

/-- `if (condition) cv.SignalAll()`. -/
def signalIf (s : System M n) (condition : Prop) [Decidable condition] : System M n :=
  if condition then s.signalAll else s

def setShared (s : System M n) (shared : SharedState) : System M n :=
  { s with shared := shared }

/-- `while (!shared->start) cv.Wait()`, up to the next wait. -/
def awaitStart (s : System M n) (i : Fin n) : System M n :=
  if s.shared.start then s.setWorker i .released else s.setWorker i .asleep

/-- `while (shared.num_done < n) cv.Wait()`, up to the next wait. -/
def awaitDone (s : System M n) : System M n :=
  if s.shared.numDone < n then { s with main := .asleepDone }
  else { s with main := .reporting 0 }

/-- `while (shared.num_initialized < n) cv.Wait()`, and the start of the benchmark. -/
def awaitInitialized (s : System M n) : System M n :=
  if s.shared.numInitialized < n then { s with main := .asleepInit }
  else (s.setShared { s.shared with start := true }).signalAll.awaitDone

/-- The first critical section of `ThreadBody`. -/
def enterBarrier (s : System M n) (i : Fin n) : System M n :=
  let shared := { s.shared with numInitialized := s.shared.numInitialized + 1 }
  ((s.setShared shared).signalIf (shared.numInitialized ≥ shared.total)).awaitStart i

/-- The second critical section of `ThreadBody`. -/
def finish (s : System M n) (i : Fin n) (thread : ThreadState) : System M n :=
  let shared := { s.shared with numDone := s.shared.numDone + 1 }
  ((s.setShared shared).signalIf (shared.numDone ≥ shared.total)).setWorker i (.done thread)

/-- Leave the barrier, call `stats.Start()` and enter the method. -/
def beginMethod (s : System M n) (i : Fin n) : System M n :=
  match M.init (.make i) with
  | none => { s with aborted := true }
  | some now => { s.setWorker i (.running now) with events := s.events ++ [.began i] }

/-- One atomic step of the method. -/
def advance (s : System M n) (i : Fin n) (now : M.Local) : System M n :=
  match M.step s.shared now s.store with
  | .continues next store => { s.setWorker i (.running next) with store := store }
  | .returns thread store => { s.setWorker i (.returned thread) with store := store }
  | .aborts => { s with aborted := true }

/-- `stats.Stop()`. -/
def stop (s : System M n) (i : Fin n) (thread : ThreadState) : System M n :=
  { s.setWorker i (.stopped thread) with events := s.events ++ [.stopped i] }

def workerStep (s : System M n) (i : Fin n) : Option (System M n) :=
  match s.workers i with
  | .notStarted | .asleep | .done _ => none
  | .initializing => some (s.enterBarrier i)
  | .awake => some (s.awaitStart i)
  | .released => some (s.beginMethod i)
  | .running now => some (s.advance i now)
  | .returned thread => some (s.stop i thread)
  | .stopped thread => some (s.finish i thread)

/-- `g_env->StartThread(ThreadBody, &arg[i])`. -/
def spawn (s : System M n) (i : Fin n) : System M n :=
  { s.setWorker i .initializing with main := .spawning (i + 1) }

/-- `arg[i].thread->stats.Report(name)`. -/
def reportThread (s : System M n) (i : Fin n) : System M n :=
  { s with
    main := .reporting (i + 1)
    events := s.events ++ [.reported i (s.workers i).stats.report] }

def mainStep (s : System M n) : Option (System M n) :=
  match s.main with
  | .spawning i => if h : i < n then some (s.spawn ⟨i, h⟩) else some s.awaitInitialized
  | .awakeInit => some s.awaitInitialized
  | .awakeDone => some s.awaitDone
  | .reporting i =>
      if h : i < n then some (s.reportThread ⟨i, h⟩) else some { s with main := .finished }
  | .asleepInit | .asleepDone | .finished => none

/-- One scheduler choice; `none` when the chosen thread cannot run. -/
def step (action : Action) (s : System M n) : Option (System M n) :=
  if s.aborted then none
  else
    match action with
    | .main => s.mainStep
    | .worker i => if h : i < n then s.workerStep ⟨i, h⟩ else none
    | .wakeMain =>
        match s.main with
        | .asleepInit | .asleepDone => some { s with main := s.main.wake }
        | _ => none
    | .wakeWorker i =>
        if h : i < n then
          match s.workers ⟨i, h⟩ with
          | .asleep => some (s.setWorker ⟨i, h⟩ .awake)
          | _ => none
        else none

/-- The benchmark is over: the main thread has returned and every thread has ended. -/
def Finished (s : System M n) : Prop :=
  s.main = .finished ∧ ∀ i, (s.workers i).ended = true

instance (s : System M n) : Decidable s.Finished :=
  inferInstanceAs (Decidable (s.main = .finished ∧ ∀ i, (s.workers i).ended = true))

/-- The lines printed by the main thread, in order. -/
def reports (s : System M n) : List Report := s.events.filterMap Event.report?

end System

end PMKVLab.Bench
