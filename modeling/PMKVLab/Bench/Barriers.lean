import PMKVLab.Bench.ProtocolSteps
import PMKVLab.Library.Counting

/-! The two barriers of `RunBenchmark`, for every method, every number of threads and every
interleaving: what the shared counters count, and in which order threads begin, stop and
are reported.
-/

namespace PMKVLab.Bench

open PMKVLab.Library

variable {Store : Type} {M : Method Store} {n : Nat}

-----------------------------------------------------------------------------------------
-- Counters
-----------------------------------------------------------------------------------------

/-- The shared counters agree with the stages of the threads. -/
structure Counters (s : System M n) : Prop where
  total : s.shared.total = n
  initialized : s.shared.numInitialized = reached 2 s.stages
  done : s.shared.numDone = reached 7 s.stages
  barrier : ∀ i, 3 ≤ s.stages i → s.shared.start = true
  started : s.shared.start = true → ∀ i, 2 ≤ s.stages i
  spawned : ∀ i, 1 ≤ s.stages i ↔ i < s.main.spawned n
  bounded : s.main.spawned n ≤ n
  gate : s.shared.start = true ↔ 2 ≤ s.main.stage
  reporting : 3 ≤ s.main.stage → ∀ i, 7 ≤ s.stages i

/-- Worker `i` goes on to the stage `target`, counting itself at the two barriers; the main
thread is at most woken.
-/
structure Moves (s after : System M n) (i : Fin n) (target : Nat) : Prop where
  stages : after.stages = Function.update s.stages i target
  main : after.main = s.main ∨ after.main = s.main.wake
  spawned : 1 ≤ s.stages i
  unfinished : s.stages i < 7
  forward : s.stages i ≤ target
  gate : 3 ≤ target → s.shared.start = true
  shared : after.shared
    = ⟨s.shared.total,
        s.shared.numInitialized + (if s.stages i < 2 ∧ 2 ≤ target then 1 else 0),
        s.shared.numDone + (if s.stages i < 7 ∧ 7 ≤ target then 1 else 0),
        s.shared.start⟩

section Moves

variable {s after : System M n} {i : Fin n} {target : Nat}

theorem Moves.mainStage (moves : Moves s after i target)
    : after.main.stage = s.main.stage
      ∧ after.main.spawned n = s.main.spawned n
      ∧ after.main.reported n = s.main.reported n := by
  rcases moves.main with main | main <;> simp [main]

/-- A worker that is not at a barrier moves without counting itself. -/
theorem moves_replace {old : Worker M} (here : s.workers i = old) (worker : Worker M)
    (workers : after.workers = Function.update s.workers i worker)
    (main : after.main = s.main) (shared : after.shared = s.shared)
    (order : 2 ≤ old.stage ∧ old.stage ≤ worker.stage ∧ worker.stage < 7)
    (gate : 3 ≤ worker.stage → s.shared.start = true)
    : Moves s after i worker.stage := by
  have stage := System.stages_of_worker here
  exact {
    stages := System.stages_of_update workers
    main := .inl main
    spawned := by omega
    unfinished := by omega
    forward := by omega
    gate := gate
    shared := by
      rw [if_neg (by omega), if_neg (by omega)]
      exact shared
  }

/-- A broadcast to the main thread, or none. -/
theorem signalIf_main_cases (s : System M n) (condition : Prop) [Decidable condition]
    : (s.signalIf condition).main = s.main ∨ (s.signalIf condition).main = s.main.wake := by
  rw [System.signalIf_main]
  split
  · exact .inr rfl
  · exact .inl rfl

/-- The first critical section counts its thread once. -/
theorem moves_enterBarrier (here : s.workers i = .initializing)
    : Moves s (s.enterBarrier i) i (if s.shared.start then 3 else 2) := by
  have stage : s.stages i = 1 := System.stages_of_worker here
  unfold System.enterBarrier
  rw [System.awaitStart_eq, System.signalIf_shared]
  exact {
    stages := by
      cases start : s.shared.start <;> simp [start, Worker.stage]
    main := signalIf_main_cases _ _
    spawned := by omega
    unfinished := by omega
    forward := by
      rw [stage]
      split <;> omega
    gate := by
      cases start : s.shared.start <;> simp
    shared := by
      cases start : s.shared.start <;> simp [stage, start]
  }

/-- Waiting for `start` counts nothing. -/
theorem moves_awaitStart (here : s.workers i = .awake)
    : Moves s (s.awaitStart i) i (if s.shared.start then 3 else 2) := by
  rw [System.awaitStart_eq]
  cases start : s.shared.start with
  | true =>
      exact moves_replace here .released rfl rfl rfl (by simp [Worker.stage])
        (fun _ => start)
  | false =>
      exact moves_replace here .asleep rfl rfl rfl (by simp [Worker.stage])
        (by simp [Worker.stage])

/-- The second critical section counts its thread once. -/
theorem moves_finish {thread : ThreadState} (here : s.workers i = .stopped thread)
    (start : s.shared.start = true)
    : Moves s (s.finish i thread) i 7 := by
  have stage : s.stages i = 6 := System.stages_of_worker here
  unfold System.finish
  exact {
    stages := by simp [Worker.stage]
    main := signalIf_main_cases _ _
    spawned := by omega
    unfinished := by omega
    forward := by omega
    gate := fun _ => start
    shared := by simp [stage]
  }

/-- A worker's move keeps the counters: each barrier counts a thread when it passes. -/
theorem Counters.of_moves (inv : Counters s) (moves : Moves s after i target)
    : Counters after := by
  obtain ⟨mainStage, spawned, _⟩ := moves.mainStage
  have stageAt : ∀ j, s.stages j ≤ after.stages j := by
    intro j
    rw [moves.stages]
    by_cases same : j = i
    · subst same
      simpa using moves.forward
    · simp [same]
  exact {
    total := by rw [moves.shared]; exact inv.total
    initialized := by
      rw [moves.stages, reached_raise 2 moves.forward, ← inv.initialized, moves.shared]
    done := by
      rw [moves.stages, reached_raise 7 moves.forward, ← inv.done, moves.shared]
    barrier := by
      intro j passed
      rw [moves.shared]
      by_cases same : j = i
      · subst same
        exact moves.gate (by simpa [moves.stages] using passed)
      · exact inv.barrier j (by simpa [moves.stages, same] using passed)
    started := by
      intro start j
      rw [moves.shared] at start
      exact Nat.le_trans (inv.started start j) (stageAt j)
    spawned := by
      intro j
      rw [spawned, ← inv.spawned j]
      by_cases same : j = i
      · subst same
        have before := moves.spawned
        have now := stageAt j
        omega
      · simp [moves.stages, same]
    bounded := spawned ▸ inv.bounded
    gate := by rw [moves.shared, mainStage]; exact inv.gate
    reporting := by
      intro late j
      rw [mainStage] at late
      exact Nat.le_trans (inv.reporting late j) (stageAt j)
  }

end Moves

section Counters

variable {s after : System M n}

theorem Counters.init (M : Method Store) (n : Nat) (store : Store)
    : Counters (System.init M n store) where
  total := rfl
  initialized := by simp [System.init, System.stages, Worker.stage, reached]
  done := by simp [System.init, System.stages, Worker.stage, reached]
  barrier := by simp [System.init, System.stages, Worker.stage]
  started := by simp [System.init]
  spawned := by simp [System.init, System.stages, Worker.stage, MainPhase.spawned]
  bounded := by simp [System.init, MainPhase.spawned]
  gate := by simp [System.init, MainPhase.stage]
  reporting := by simp [System.init, MainPhase.stage]

/-- A thread in its method, or past it, has seen `start`. -/
theorem Counters.start_of_worker (inv : Counters s) {i : Fin n} {worker : Worker M}
    (here : s.workers i = worker) (passed : 3 ≤ worker.stage)
    : s.shared.start = true :=
  inv.barrier i (System.stages_of_worker here ▸ passed)

/-- The thread the main thread is about to start has not been started. -/
theorem Counters.unspawned (inv : Counters s) (i : Fin n) (here : s.main = .spawning i)
    : s.workers i = .notStarted := by
  have spawned := inv.spawned i
  rw [here] at spawned
  simp only [MainPhase.spawned, Nat.lt_irrefl, iff_false] at spawned
  cases worker : s.workers i with
  | notStarted => rfl
  | _ => simp [System.stages, worker, Worker.stage] at spawned

/-- Starting a thread keeps the counters; it was not started before. -/
theorem Counters.spawn (inv : Counters s) {i : Fin n} (here : s.main = .spawning i)
    : Counters (s.spawn i) := by
  have stage : s.stages i = 0 := System.stages_of_worker (inv.unspawned i here)
  have closed : s.shared.start = false := by
    have gate := inv.gate
    simpa [here, MainPhase.stage] using gate
  have stages : (s.spawn i).stages = Function.update s.stages i 1 :=
    System.stages_setWorker s i .initializing
  exact {
    total := inv.total
    initialized := by
      rw [stages, reached_raise 2 (by omega), if_neg (by omega)]
      exact inv.initialized
    done := by
      rw [stages, reached_raise 7 (by omega), if_neg (by omega)]
      exact inv.done
    barrier := by
      intro j passed
      rw [stages] at passed
      by_cases same : j = i
      · subst same
        simp at passed
      · exact inv.barrier j (by simpa [same] using passed)
    started := by
      intro start
      exact absurd start (by simp [System.spawn, closed])
    spawned := by
      intro j
      have before := inv.spawned j
      rw [here] at before
      simp only [MainPhase.spawned] at before
      rw [stages]
      by_cases same : j = i
      · subst same
        simp [System.spawn, MainPhase.spawned]
      · have other : (j : Nat) ≠ i := fun equal => same (Fin.ext equal)
        simp only [System.spawn, MainPhase.spawned, Function.update_of_ne same]
        omega
    bounded := i.isLt
    gate := by simp [System.spawn, closed, MainPhase.stage]
    reporting := by simp [System.spawn, MainPhase.stage]
  }

/-- A move of the main thread alone keeps the counters when its new phase agrees with
`start` and, from the reports on, with the finished threads.
-/
theorem Counters.setMain (inv : Counters s) {main : MainPhase}
    (spawned : main.spawned n = s.main.spawned n)
    (gate : s.shared.start = true ↔ 2 ≤ main.stage)
    (reporting : 3 ≤ main.stage → ∀ i, 7 ≤ s.stages i)
    : Counters { s with main := main } :=
  { total := inv.total
    initialized := inv.initialized
    done := inv.done
    barrier := inv.barrier
    started := inv.started
    spawned := fun i => spawned ▸ inv.spawned i
    bounded := spawned ▸ inv.bounded
    gate := gate
    reporting := reporting }

/-- When the done counter reaches `n`, every thread has ended. -/
theorem Counters.all_done (inv : Counters s) (full : n ≤ s.shared.numDone) (i : Fin n)
    : 7 ≤ s.stages i := by
  have bound : reached 7 s.stages ≤ n := reached_le _ s.stages
  have done := inv.done
  exact reached_eq_iff.mp (by omega) i

/-- The end of the wait does not depend on where the main thread came from. -/
theorem awaitDone_setMain (s : System M n) (main : MainPhase)
    : System.awaitDone { s with main := main } = s.awaitDone := by
  unfold System.awaitDone
  split <;> simp_all

/-- Waiting for the end keeps the counters. -/
theorem Counters.awaitDone (inv : Counters s) (here : s.main = .awakeDone)
    : Counters s.awaitDone := by
  have start : s.shared.start = true := inv.gate.mpr (by simp [here, MainPhase.stage])
  have spawned : s.main.spawned n = n := by rw [here]; rfl
  unfold System.awaitDone
  split
  · exact inv.setMain spawned.symm (by simp [start, MainPhase.stage])
      (by simp [MainPhase.stage])
  · next full =>
    exact inv.setMain spawned.symm (by simp [start, MainPhase.stage])
      (fun _ => inv.all_done (Nat.le_of_not_lt full))

/-- Opening the gate keeps the counters once every thread has checked in. -/
theorem Counters.open (inv : Counters s) (all : ∀ i, 2 ≤ s.stages i)
    : Counters
        { (s.setShared { s.shared with start := true }).signalAll with
          main := .awakeDone } := by
  have stages : System.stages
        { (s.setShared { s.shared with start := true }).signalAll with main := .awakeDone }
      = s.stages :=
    System.stages_signalAll s
  exact {
    total := inv.total
    initialized := stages ▸ inv.initialized
    done := stages ▸ inv.done
    barrier := fun _ _ => rfl
    started := fun _ => stages ▸ all
    spawned := by
      intro i
      have reached := all i
      rw [stages]
      simp only [MainPhase.spawned, i.isLt, iff_true]
      omega
    bounded := Nat.le_refl n
    gate := by simp [System.signalAll, System.setShared, MainPhase.stage]
    reporting := by simp [MainPhase.stage]
  }

/-- Waiting for the threads keeps the counters; `start` is set only when all of them have
checked in.
-/
theorem Counters.awaitInitialized (inv : Counters s) (here : s.main.stage ≤ 1)
    (spawned : s.main.spawned n = n)
    : Counters s.awaitInitialized := by
  have closed : ¬ s.shared.start = true := fun start => by
    have passed := inv.gate.mp start
    omega
  unfold System.awaitInitialized
  split
  · exact inv.setMain spawned.symm (by simp [closed, MainPhase.stage])
      (by simp [MainPhase.stage])
  · next full =>
    have bound : reached 2 s.stages ≤ n := reached_le _ s.stages
    have initialized := inv.initialized
    have all : ∀ i, 2 ≤ s.stages i := reached_eq_iff.mp (by omega)
    rw [← awaitDone_setMain _ .awakeDone]
    exact (inv.open all).awaitDone rfl

end Counters

-----------------------------------------------------------------------------------------
-- Events
-----------------------------------------------------------------------------------------

/-- The reports of the threads the main thread has come to. -/
def System.dueReports (s : System M n) : List Report :=
  ((List.finRange n).take (s.main.reported n)).map (fun i => (s.workers i).stats.report)

/-- The log agrees with the stages: each thread begins and stops once, and a report is
preceded by the stops of all threads.
-/
structure Traced (s : System M n) : Prop where
  began : ∀ i : Fin n, s.events.count (.began i) = if 4 ≤ s.stages i then 1 else 0
  stopped : ∀ i : Fin n, s.events.count (.stopped i) = if 6 ≤ s.stages i then 1 else 0
  ordered : ∀ before tid report, before ++ [.reported tid report] <+: s.events
    → ∀ i : Fin n, .stopped i ∈ before
  reports : s.reports = s.dueReports

section Traced

variable {s after : System M n} {i : Fin n} {target : Nat}

theorem Traced.init (M : Method Store) (n : Nat) (store : Store)
    : Traced (System.init M n store) where
  began := by simp [System.init, System.stages, Worker.stage]
  stopped := by simp [System.init, System.stages, Worker.stage]
  ordered := by simp [System.init]
  reports := by simp [System.init, System.reports, System.dueReports, MainPhase.reported]

/-- A step without an event keeps the log right when no thread passes a logged stage. -/
theorem Traced.quiet (inv : Traced s) (events : after.events = s.events)
    (running : ∀ j, 4 ≤ after.stages j ↔ 4 ≤ s.stages j)
    (ending : ∀ j, 6 ≤ after.stages j ↔ 6 ≤ s.stages j)
    (due : after.dueReports = s.dueReports)
    : Traced after where
  began := by simpa only [events, running] using inv.began
  stopped := by simpa only [events, ending] using inv.stopped
  ordered := by simpa only [events] using inv.ordered
  reports := by
    rw [due, System.reports, events]
    exact inv.reports

/-- Nothing has been reported while a thread still moves. -/
theorem Moves.unreported (moves : Moves s after i target) (counters : Counters s)
    : s.dueReports = [] ∧ after.dueReports = [] := by
  have early : s.main.stage < 3 := by
    by_contra late
    have ended := counters.reporting (Nat.le_of_not_lt late) i
    have unfinished := moves.unfinished
    omega
  have none := MainPhase.reported_of_stage (n := n) early
  constructor
  · simp [System.dueReports, none]
  · simp [System.dueReports, moves.mainStage.2.2, none]

/-- A worker's move that passes no logged stage is not logged. -/
theorem Traced.of_moves (inv : Traced s) (counters : Counters s)
    (moves : Moves s after i target) (events : after.events = s.events)
    (running : 4 ≤ target ↔ 4 ≤ s.stages i) (ending : 6 ≤ target ↔ 6 ≤ s.stages i)
    : Traced after := by
  obtain ⟨before, now⟩ := moves.unreported counters
  apply inv.quiet events _ _ (now.trans before.symm)
  all_goals
    intro j
    rw [moves.stages]
    by_cases same : j = i
    · subst same
      simpa using by assumption
    · simp [same]

/-- A worker's move that is logged keeps the log right: the event is the one of the stage
it passes.
-/
theorem Traced.record (inv : Traced s) (counters : Counters s)
    (moves : Moves s after i target) {event : Event}
    (events : after.events = s.events ++ [event]) (silent : event.report? = none)
    (running : (if 4 ≤ s.stages i then 1 else 0) + (if event = .began i then 1 else 0)
      = if 4 ≤ target then 1 else 0)
    (ending : (if 6 ≤ s.stages i then 1 else 0) + (if event = .stopped i then 1 else 0)
      = if 6 ≤ target then 1 else 0)
    (own : event = .began i ∨ event = .stopped i)
    : Traced after where
  began := by
    intro j
    rw [events, List.count_append, inv.began j, moves.stages, List.count_singleton]
    by_cases same : j = i
    · subst same
      simpa using running
    · have other : (j : Nat) ≠ i := fun equal => same (Fin.ext equal)
      rcases own with own | own <;> simp [own, same, other.symm]
  stopped := by
    intro j
    rw [events, List.count_append, inv.stopped j, moves.stages, List.count_singleton]
    by_cases same : j = i
    · subst same
      simpa using ending
    · have other : (j : Nat) ≠ i := fun equal => same (Fin.ext equal)
      rcases own with own | own <;> simp [own, same, other.symm]
  ordered := by
    intro before tid report reported
    rw [events, List.prefix_concat_iff] at reported
    rcases reported with last | earlier
    · have same := (List.append_inj' last rfl).2
      cases same
      cases silent
    · exact inv.ordered before tid report earlier
  reports := by
    obtain ⟨before, now⟩ := moves.unreported counters
    rw [now, System.reports, events, List.filterMap_append]
    simp only [List.filterMap_cons, silent, List.filterMap_nil, List.append_nil]
    exact inv.reports.trans before

/-- A report by the main thread keeps the log right: every thread has stopped. -/
theorem Traced.reportThread (inv : Traced s) (counters : Counters s)
    (here : s.main = .reporting i)
    : Traced (s.reportThread i) where
  began := by
    intro j
    have stages : (s.reportThread i).stages = s.stages := rfl
    rw [stages, ← inv.began j]
    simp [System.reportThread, List.count_append]
  stopped := by
    intro j
    have stages : (s.reportThread i).stages = s.stages := rfl
    rw [stages, ← inv.stopped j]
    simp [System.reportThread, List.count_append]
  ordered := by
    intro before tid report reported j
    have ended := counters.reporting (by simp [here, MainPhase.stage]) j
    simp only [System.reportThread, List.prefix_concat_iff] at reported
    rcases reported with last | earlier
    · rw [(List.append_inj' last rfl).1]
      have once := inv.stopped j
      rw [if_pos (by omega)] at once
      exact List.count_pos_iff.mp (by omega)
    · exact inv.ordered before tid report earlier j
  reports := by
    have shown := inv.reports
    simp only [System.dueReports, here, MainPhase.reported] at shown
    simp only [System.reports, System.dueReports, System.reportThread, MainPhase.reported,
      List.filterMap_append] at shown ⊢
    rw [shown, List.take_add_one]
    simp [Event.report?]

end Traced

-----------------------------------------------------------------------------------------
-- Every transition keeps both
-----------------------------------------------------------------------------------------

/-- Counters and log of a reachable state. -/
structure Coherent (s : System M n) : Prop where
  counters : Counters s
  traced : Traced s

section Coherent

variable {s after : System M n} {i : Fin n} {target : Nat}

/-- A worker's unlogged move. -/
theorem Coherent.of_moves (inv : Coherent s) (moves : Moves s after i target)
    (events : after.events = s.events) (running : 4 ≤ target ↔ 4 ≤ s.stages i)
    (ending : 6 ≤ target ↔ 6 ≤ s.stages i)
    : Coherent after :=
  ⟨inv.counters.of_moves moves,
    inv.traced.of_moves inv.counters moves events running ending⟩

/-- A worker past the first barrier goes on without an event. -/
theorem Coherent.replace (inv : Coherent s) {old : Worker M} (here : s.workers i = old)
    (worker : Worker M) (workers : after.workers = Function.update s.workers i worker)
    (main : after.main = s.main) (shared : after.shared = s.shared)
    (events : after.events = s.events)
    (order : 2 ≤ old.stage ∧ old.stage ≤ worker.stage ∧ worker.stage < 7)
    (gate : 3 ≤ worker.stage → 3 ≤ old.stage)
    (unlogged : (4 ≤ worker.stage ↔ 4 ≤ old.stage) ∧ (6 ≤ worker.stage ↔ 6 ≤ old.stage))
    : Coherent after := by
  have stage := System.stages_of_worker here
  refine inv.of_moves (moves_replace here worker workers main shared order ?_) events ?_ ?_
  · intro passed
    exact inv.counters.start_of_worker here (gate passed)
  · rw [stage]
    exact unlogged.1
  · rw [stage]
    exact unlogged.2

/-- A worker past the first barrier goes on with its event. -/
theorem Coherent.record (inv : Coherent s) {old : Worker M} (here : s.workers i = old)
    (worker : Worker M) (workers : after.workers = Function.update s.workers i worker)
    (main : after.main = s.main) (shared : after.shared = s.shared) {event : Event}
    (events : after.events = s.events ++ [event])
    (order : 3 ≤ old.stage ∧ old.stage ≤ worker.stage ∧ worker.stage < 7)
    (logged : (event = .began i ∧ old.stage = 3 ∧ worker.stage = 4)
      ∨ (event = .stopped i ∧ old.stage = 5 ∧ worker.stage = 6))
    : Coherent after := by
  have stage := System.stages_of_worker here
  have start := inv.counters.start_of_worker here order.1
  have moves : Moves s after i worker.stage :=
    moves_replace here worker workers main shared (by omega) (fun _ => start)
  refine ⟨inv.counters.of_moves moves, ?_⟩
  rcases logged with ⟨rfl, before, now⟩ | ⟨rfl, before, now⟩
  · exact inv.traced.record inv.counters moves events rfl (by simp [stage, before, now])
      (by simp [stage, before, now]) (.inl rfl)
  · exact inv.traced.record inv.counters moves events rfl (by simp [stage, before, now])
      (by simp [stage, before, now]) (.inr rfl)

/-- A move of the main thread that reports nothing. -/
theorem Coherent.of_main (inv : Coherent s) (counters : Counters after)
    (events : after.events = s.events) (stages : after.stages = s.stages)
    (due : after.dueReports = s.dueReports)
    : Coherent after :=
  ⟨counters, inv.traced.quiet events (by simp [stages]) (by simp [stages]) due⟩

/-- Before the reports the main thread owes none. -/
theorem dueReports_of_stage (early : s.main.stage < 3) : s.dueReports = [] := by
  simp [System.dueReports, MainPhase.reported_of_stage early]

theorem Coherent.spawn (inv : Coherent s) (here : s.main = .spawning i)
    : Coherent (s.spawn i) := by
  have unspawned : s.stages i = 0 := System.stages_of_worker (inv.counters.unspawned i here)
  have stages : (s.spawn i).stages = Function.update s.stages i 1 :=
    System.stages_setWorker s i .initializing
  refine ⟨inv.counters.spawn here, inv.traced.quiet rfl ?_ ?_ ?_⟩
  · intro j
    rw [stages]
    by_cases same : j = i
    · subst same
      simp only [Function.update_self]
      omega
    · simp [same]
  · intro j
    rw [stages]
    by_cases same : j = i
    · subst same
      simp only [Function.update_self]
      omega
    · simp [same]
  · have before : s.dueReports = [] := dueReports_of_stage (by simp [here, MainPhase.stage])
    exact (dueReports_of_stage (by simp [System.spawn, MainPhase.stage])).trans before.symm

/-- Waiting for the end reports nothing and moves no worker. -/
theorem awaitDone_frame (s : System M n)
    : s.awaitDone.events = s.events
      ∧ s.awaitDone.workers = s.workers
      ∧ s.awaitDone.dueReports = [] := by
  unfold System.awaitDone
  split <;> simp [System.dueReports, MainPhase.reported]

/-- Waiting for the threads reports nothing and at most wakes the workers. -/
theorem awaitInitialized_frame (s : System M n)
    : s.awaitInitialized.events = s.events
      ∧ s.awaitInitialized.stages = s.stages
      ∧ s.awaitInitialized.dueReports = [] := by
  unfold System.awaitInitialized
  split
  · exact ⟨rfl, rfl, by simp [System.dueReports, MainPhase.reported]⟩
  · obtain ⟨events, workers, due⟩ :=
      awaitDone_frame (s.setShared { s.shared with start := true }).signalAll
    exact ⟨events, (System.stages_of_same workers).trans (System.stages_signalAll s), due⟩

@[simp] theorem signalIf_events (s : System M n) (condition : Prop) [Decidable condition]
    : (s.signalIf condition).events = s.events := by
  unfold System.signalIf
  split <;> rfl

theorem enterBarrier_events (s : System M n) (i : Fin n)
    : (s.enterBarrier i).events = s.events := by
  unfold System.enterBarrier
  rw [System.awaitStart_eq]
  exact signalIf_events _ _

theorem finish_events (s : System M n) (i : Fin n) (thread : ThreadState)
    : (s.finish i thread).events = s.events :=
  signalIf_events _ _

/-- Every transition keeps counters and log. Witness: a worker's moves by
`Counters.of_moves`, the main thread by the lemma about its phase.
-/
theorem Coherent.preserved (inv : Coherent s) {productive : Bool}
    (transition : Transition s productive after)
    : Coherent after := by
  cases transition with
  | spawn i here => exact inv.spawn here
  | awaitInitialized k here =>
      obtain ⟨events, stages, due⟩ := awaitInitialized_frame s
      have bounded := inv.counters.bounded
      rcases here with ⟨here, all⟩ | here
      · rw [here] at bounded
        have spawned : s.main.spawned n = n := by
          rw [here]
          exact Nat.le_antisymm bounded all
        exact inv.of_main
          (inv.counters.awaitInitialized (by simp [here, MainPhase.stage]) spawned)
          events stages (due.trans (dueReports_of_stage (by simp [here, MainPhase.stage])).symm)
      · exact inv.of_main
          (inv.counters.awaitInitialized (by simp [here, MainPhase.stage]) (by rw [here]; rfl))
          events stages (due.trans (dueReports_of_stage (by simp [here, MainPhase.stage])).symm)
  | awaitDone here =>
      obtain ⟨events, workers, due⟩ := awaitDone_frame s
      exact inv.of_main (inv.counters.awaitDone here) events
        (System.stages_of_same workers)
        (due.trans (dueReports_of_stage (by simp [here, MainPhase.stage])).symm)
  | reportThread i here =>
      have start := inv.counters.gate
      have ended := inv.counters.reporting
      rw [here] at start ended
      have moved : Counters { s with main := .reporting (i + 1) } :=
        inv.counters.setMain (by rw [here]; rfl) start ended
      exact ⟨⟨moved.total, moved.initialized, moved.done, moved.barrier, moved.started,
        moved.spawned, moved.bounded, moved.gate, moved.reporting⟩,
        inv.traced.reportThread inv.counters here⟩
  | mainReturns k here all =>
      have start := inv.counters.gate
      have ended := inv.counters.reporting
      rw [here] at start ended
      refine inv.of_main (inv.counters.setMain (by rw [here]; rfl)
        (start.trans (by simp [MainPhase.stage])) (fun _ => ended (Nat.le_refl 3))) rfl rfl ?_
      simp only [System.dueReports, here, MainPhase.reported]
      rw [List.take_of_length_le (by simp), List.take_of_length_le (by simpa using all)]
  | wakeMain here =>
      refine inv.of_main (inv.counters.setMain (by simp) (by simpa using inv.counters.gate)
        (by simpa using inv.counters.reporting)) rfl rfl ?_
      simp [System.dueReports]
  | enterBarrier i here =>
      have stage : s.stages i = 1 := System.stages_of_worker here
      refine inv.of_moves (moves_enterBarrier here) ?_ ?_ ?_
      · exact enterBarrier_events s i
      · rw [stage]
        split <;> simp
      · rw [stage]
        split <;> simp
  | awaitStart i here =>
      have stage : s.stages i = 2 := System.stages_of_worker here
      refine inv.of_moves (moves_awaitStart here) ?_ ?_ ?_
      · rw [System.awaitStart_eq]
        rfl
      · rw [stage]
        split <;> simp
      · rw [stage]
        split <;> simp
  | begins i here now entered =>
      exact inv.record here (.running now) rfl rfl rfl rfl (by simp [Worker.stage])
        (.inl ⟨rfl, rfl, rfl⟩)
  | continues i now next store here stepped =>
      exact inv.replace here (.running next) rfl rfl rfl rfl (by simp [Worker.stage])
        (by simp [Worker.stage]) (by simp [Worker.stage])
  | returns i now thread store here stepped =>
      exact inv.replace here (.returned thread) rfl rfl rfl rfl (by simp [Worker.stage])
        (by simp [Worker.stage]) (by simp [Worker.stage])
  | aborts i cause =>
      have counters := inv.counters
      have aborted : Counters { s with aborted := true } :=
        ⟨counters.total, counters.initialized, counters.done, counters.barrier,
          counters.started, counters.spawned, counters.bounded, counters.gate,
          counters.reporting⟩
      exact inv.of_main aborted rfl rfl rfl
  | stop i thread here =>
      exact inv.record here (.stopped thread) rfl rfl rfl rfl (by simp [Worker.stage])
        (.inr ⟨rfl, rfl, rfl⟩)
  | finish i thread here =>
      have stage : s.stages i = 6 := System.stages_of_worker here
      have start := inv.counters.start_of_worker here (by simp [Worker.stage])
      exact inv.of_moves (moves_finish here start) (finish_events s i thread)
        (by simp [stage]) (by simp [stage])
  | wakeWorker i here =>
      exact inv.replace here .awake rfl rfl rfl rfl (by simp [Worker.stage])
        (by simp [Worker.stage]) (by simp [Worker.stage])

/-- No transition takes a thread back to an earlier stage. -/
theorem Transition.stages_le (counters : Counters s) {productive : Bool}
    (transition : Transition s productive after) (j : Fin n)
    : s.stages j ≤ after.stages j := by
  have update {i : Fin n} {target : Nat} (stages : after.stages = Function.update s.stages i target)
      (forward : s.stages i ≤ target) : s.stages j ≤ after.stages j := by
    rw [stages]
    by_cases same : j = i
    · subst same
      simpa using forward
    · simp [same]
  have replace {i : Fin n} {old : Worker M} (here : s.workers i = old) (worker : Worker M)
      (workers : after.workers = Function.update s.workers i worker)
      (forward : old.stage ≤ worker.stage) : s.stages j ≤ after.stages j :=
    update (System.stages_of_update workers) (System.stages_of_worker here ▸ forward)
  cases transition with
  | spawn i here =>
      exact replace (counters.unspawned i here) .initializing rfl (Nat.zero_le _)
  | awaitInitialized k here => exact Nat.le_of_eq (congrFun (awaitInitialized_frame s).2.1 j).symm
  | awaitDone here =>
      exact Nat.le_of_eq
        (congrFun (System.stages_of_same (awaitDone_frame s).2.1) j).symm
  | enterBarrier i here =>
      exact update (moves_enterBarrier here).stages (moves_enterBarrier here).forward
  | awaitStart i here => exact update (moves_awaitStart here).stages (moves_awaitStart here).forward
  | begins i here now entered => exact replace here (.running now) rfl (by simp [Worker.stage])
  | continues i now next store here stepped =>
      exact replace here (.running next) rfl (Nat.le_refl _)
  | returns i now thread store here stepped =>
      exact replace here (.returned thread) rfl (by simp [Worker.stage])
  | stop i thread here => exact replace here (.stopped thread) rfl (by simp [Worker.stage])
  | finish i thread here =>
      have start := counters.start_of_worker here (by simp [Worker.stage])
      exact update (moves_finish here start).stages (moves_finish here start).forward
  | wakeWorker i here => exact replace here .awake rfl (Nat.le_refl _)
  | reportThread | mainReturns | wakeMain | aborts => exact Nat.le_refl _

/-- Counters and log agree in every reachable state. -/
theorem Coherent.of_reachable {store : Store}
    (reachable : Reachable System.step (System.init M n store) s)
    : Coherent s := by
  apply reachable.invariant Coherent ⟨.init M n store, .init M n store⟩
  intro action before next inv taken
  exact inv.preserved (System.step_transition taken).2

end Coherent

end PMKVLab.Bench
