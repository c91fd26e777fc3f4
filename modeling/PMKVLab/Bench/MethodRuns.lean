import PMKVLab.Bench.StartFinish

/-! From the steps of a benchmark method to whole runs of the protocol: properties of the
method's own state and the store carry over to every reachable state, the reports of a
finished run are those of the returned threads, and methods with a rank terminate.
-/

namespace PMKVLab.Bench

open PMKVLab.Library

variable {Store : Type} {M : Method Store} {n : Nat}

-----------------------------------------------------------------------------------------
-- Properties of the method and the store
-----------------------------------------------------------------------------------------

/-- What the protocol leaves visible of a thread's method. -/
inductive Phase (M : Method Store)
  | waiting
  | running (now : M.Local)
  | finished (thread : ThreadState)

def Worker.phase : Worker M → Phase M
  | .running now => .running now
  | .returned thread | .stopped thread | .done thread => .finished thread
  | _ => .waiting

@[simp] theorem Worker.phase_wake (worker : Worker M) : worker.wake.phase = worker.phase := by
  cases worker <;> rfl

namespace System

def phases (s : System M n) : Fin n → Phase M := fun i => (s.workers i).phase

/-- Replacing a worker replaces its phase. -/
theorem phases_of_update {s after : System M n} {i : Fin n} (worker : Worker M)
    (workers : after.workers = Function.update s.workers i worker)
    : after.phases = Function.update s.phases i worker.phase := by
  funext j
  by_cases same : j = i
  · subst same
    simp [phases, workers]
  · simp [phases, workers, same]

/-- A worker may move within its phase. -/
theorem phases_of_same {s after : System M n} {i : Fin n} (worker : Worker M)
    (workers : after.workers = Function.update s.workers i worker)
    (same : worker.phase = s.phases i)
    : after.phases = s.phases := by
  rw [phases_of_update worker workers, same]
  exact Function.update_eq_self i s.phases

theorem phases_signalAll (s : System M n) : s.signalAll.phases = s.phases := by
  funext j
  exact Worker.phase_wake (s.workers j)

@[simp] theorem phases_signalIf (s : System M n) (condition : Prop) [Decidable condition]
    : (s.signalIf condition).phases = s.phases := by
  unfold signalIf
  split
  · exact phases_signalAll s
  · rfl

end System

/-- The property of all phases and the store is kept by entering the method, by each of its
steps and by its return, whichever thread moves and whatever the counters are.
-/
structure Method.Keeps (M : Method Store) (n : Nat)
    (property : (Fin n → Phase M) → Store → Prop) : Prop where
  begins {phases : Fin n → Phase M} {store : Store} {i : Fin n} {now : M.Local}
    : property phases store → phases i = .waiting → M.init (.make i) = some now
      → property (Function.update phases i (.running now)) store
  continues {phases : Fin n → Phase M} {store after : Store} {i : Fin n}
    {now next : M.Local} {shared : SharedState}
    : property phases store → phases i = .running now
      → M.step shared now store = .continues next after
      → property (Function.update phases i (.running next)) after
  returns {phases : Fin n → Phase M} {store after : Store} {i : Fin n} {now : M.Local}
    {thread : ThreadState} {shared : SharedState}
    : property phases store → phases i = .running now
      → M.step shared now store = .returns thread after
      → property (Function.update phases i (.finished thread)) after

section Keeps

variable {s after : System M n}

/-- Transitions of the protocol leave phases and store alone, those of the method are its
steps.
-/
inductive MethodStep (s : System M n) : System M n → Prop
  | protocol {after : System M n} (phases : after.phases = s.phases)
    (store : after.store = s.store)
    : MethodStep s after
  | begins {after : System M n} (i : Fin n) (now : M.Local)
    (waiting : s.phases i = .waiting) (entered : M.init (.make i) = some now)
    (phases : after.phases = Function.update s.phases i (.running now))
    (store : after.store = s.store)
    : MethodStep s after
  | continues {after : System M n} (i : Fin n) (now next : M.Local)
    (running : s.phases i = .running now)
    (stepped : M.step s.shared now s.store = .continues next after.store)
    (phases : after.phases = Function.update s.phases i (.running next))
    : MethodStep s after
  | returns {after : System M n} (i : Fin n) (now : M.Local) (thread : ThreadState)
    (running : s.phases i = .running now)
    (stepped : M.step s.shared now s.store = .returns thread after.store)
    (phases : after.phases = Function.update s.phases i (.finished thread))
    : MethodStep s after

theorem signalIf_store (s : System M n) (condition : Prop) [Decidable condition]
    : (s.signalIf condition).store = s.store := by
  unfold System.signalIf
  split <;> rfl

theorem awaitDone_phases (s : System M n)
    : s.awaitDone.phases = s.phases ∧ s.awaitDone.store = s.store := by
  unfold System.awaitDone
  split <;> exact ⟨rfl, rfl⟩

/-- Waiting for `start` happens before the method. -/
theorem awaitStart_phases {i : Fin n} (waiting : s.phases i = .waiting)
    : (s.awaitStart i).phases = s.phases ∧ (s.awaitStart i).store = s.store := by
  unfold System.awaitStart
  split
  · exact ⟨System.phases_of_same .released rfl waiting.symm, rfl⟩
  · exact ⟨System.phases_of_same .asleep rfl waiting.symm, rfl⟩

theorem phases_of_worker {i : Fin n} {worker : Worker M} (here : s.workers i = worker)
    : s.phases i = worker.phase :=
  congrArg Worker.phase here

/-- A running phase shows the worker. -/
theorem worker_of_running {i : Fin n} {now : M.Local} (running : s.phases i = .running now)
    : s.workers i = .running now := by
  cases here : s.workers i with
  | running other =>
      have same := (phases_of_worker here).symm.trans running
      cases same
      rfl
  | _ => cases (phases_of_worker here).symm.trans running

/-- Every transition is a step of the method or invisible to it. Witness: one case per
transition; a thread is started only once.
-/
theorem Transition.methodStep (counters : Counters s) {productive : Bool}
    (transition : Transition s productive after)
    : MethodStep s after := by
  cases transition with
  | spawn i here =>
      have waiting : s.phases i = .waiting := phases_of_worker (counters.unspawned i here)
      exact .protocol (System.phases_of_same .initializing rfl waiting.symm) rfl
  | awaitInitialized k here =>
      unfold System.awaitInitialized
      split
      · exact .protocol rfl rfl
      · obtain ⟨phases, store⟩ :=
          awaitDone_phases (s.setShared { s.shared with start := true }).signalAll
        exact .protocol (phases.trans (System.phases_signalAll _)) store
  | awaitDone here =>
      obtain ⟨phases, store⟩ := awaitDone_phases s
      exact .protocol phases store
  | reportThread i here => exact .protocol rfl rfl
  | mainReturns k here all => exact .protocol rfl rfl
  | wakeMain here => exact .protocol rfl rfl
  | enterBarrier i here =>
      let shared := { s.shared with numInitialized := s.shared.numInitialized + 1 }
      let counted := (s.setShared shared).signalIf (shared.numInitialized ≥ shared.total)
      have unchanged : counted.phases = s.phases := System.phases_signalIf _ _
      have waiting : counted.phases i = .waiting := by
        rw [unchanged]
        exact phases_of_worker here
      obtain ⟨phases, store⟩ := awaitStart_phases waiting
      exact .protocol (phases.trans unchanged) (store.trans (signalIf_store _ _))
  | awaitStart i here =>
      obtain ⟨phases, store⟩ := awaitStart_phases (phases_of_worker here)
      exact .protocol phases store
  | begins i here now entered =>
      exact .begins i now (phases_of_worker here) entered
        (System.phases_of_update (.running now) rfl) rfl
  | continues i now next store here stepped =>
      exact .continues i now next (phases_of_worker here) stepped
        (System.phases_of_update (.running next) rfl)
  | returns i now thread store here stepped =>
      exact .returns i now thread (phases_of_worker here) stepped
        (System.phases_of_update (.returned thread) rfl)
  | aborts i cause => exact .protocol rfl rfl
  | stop i thread here =>
      exact .protocol
        (System.phases_of_same (.stopped thread) rfl (phases_of_worker here).symm) rfl
  | finish i thread here =>
      let shared := { s.shared with numDone := s.shared.numDone + 1 }
      let counted := (s.setShared shared).signalIf (shared.numDone ≥ shared.total)
      have unchanged : counted.phases = s.phases := System.phases_signalIf _ _
      have finished : (Worker.done thread : Worker M).phase = counted.phases i := by
        rw [unchanged]
        exact (phases_of_worker here).symm
      have same : (counted.setWorker i (.done thread)).phases = counted.phases :=
        System.phases_of_same (.done thread) rfl finished
      exact .protocol (same.trans unchanged) (signalIf_store _ _)
  | wakeWorker i here =>
      exact .protocol (System.phases_of_same .awake rfl (phases_of_worker here).symm) rfl

/-- What the method keeps survives every transition. -/
theorem Method.Keeps.methodStep {property : (Fin n → Phase M) → Store → Prop}
    (keeps : M.Keeps n property) (holds : property s.phases s.store)
    (next : MethodStep s after)
    : property after.phases after.store := by
  cases next with
  | protocol phases store => exact phases ▸ store ▸ holds
  | begins i now waiting entered phases store =>
      exact phases ▸ store ▸ keeps.begins holds waiting entered
  | continues i now next running stepped phases =>
      exact phases ▸ keeps.continues holds running stepped
  | returns i now thread running stepped phases =>
      exact phases ▸ keeps.returns holds running stepped

/-- What the method keeps holds in every reachable state. -/
theorem Method.Keeps.of_reachable {property : (Fin n → Phase M) → Store → Prop}
    (keeps : M.Keeps n property) {store : Store}
    (initial : property (fun _ => .waiting) store)
    (reachable : Reachable System.step (System.init M n store) s)
    : property s.phases s.store := by
  have both : Coherent s ∧ property s.phases s.store := by
    apply reachable.invariant (fun state => Coherent state ∧ property state.phases state.store)
    · exact ⟨⟨.init M n store, .init M n store⟩, initial⟩
    · intro action before next inv taken
      obtain ⟨coherent, holds⟩ := inv
      have transition := (System.step_transition taken).2
      exact ⟨coherent.preserved transition,
        keeps.methodStep holds (transition.methodStep coherent.counters)⟩
  exact both.2

/-- A property of each thread's own phase is kept over an invariant of the store when every
step of the method keeps both.
-/
theorem Method.keeps_over {inv : Store → Prop} {property : Nat → Phase M → Prop}
    (begins : ∀ {i now}, M.init (.make i) = some now → property i (.running now))
    (continues : ∀ {i now next store after shared}, inv store → property i (.running now)
      → M.step shared now store = .continues next after
      → inv after ∧ property i (.running next))
    (returns : ∀ {i now thread store after shared}, inv store → property i (.running now)
      → M.step shared now store = .returns thread after
      → inv after ∧ property i (.finished thread))
    : M.Keeps n (fun phases store => inv store ∧ ∀ i : Fin n, property i (phases i)) := by
  have replaced {phases : Fin n → Phase M} {i : Fin n} {phase : Phase M}
      (holds : ∀ j : Fin n, property j (phases j)) (here : property i phase) (j : Fin n)
      : property j (Function.update phases i phase j) := by
    by_cases same : j = i
    · subst same
      rwa [Function.update_self]
    · rw [Function.update_of_ne same]
      exact holds j
  refine ⟨?_, ?_, ?_⟩
  · intro phases store i now ⟨kept, holds⟩ _ entered
    exact ⟨kept, replaced holds (begins entered)⟩
  · intro phases store after i now next shared ⟨kept, holds⟩ running stepped
    obtain ⟨kept, here⟩ := continues kept (running ▸ holds i) stepped
    exact ⟨kept, replaced holds here⟩
  · intro phases store after i now thread shared ⟨kept, holds⟩ running stepped
    obtain ⟨kept, here⟩ := returns kept (running ▸ holds i) stepped
    exact ⟨kept, replaced holds here⟩

/-- A property of each thread's own phase is kept when every step of the method keeps it. -/
theorem Method.keeps_each {property : Nat → Phase M → Prop}
    (begins : ∀ {i now}, M.init (.make i) = some now → property i (.running now))
    (continues : ∀ {i now next store after shared}, property i (.running now)
      → M.step shared now store = .continues next after → property i (.running next))
    (returns : ∀ {i now thread store after shared}, property i (.running now)
      → M.step shared now store = .returns thread after → property i (.finished thread))
    : M.Keeps n (fun phases _ => ∀ i : Fin n, property i (phases i)) := by
  have kept : M.Keeps n (fun phases _ => True ∧ ∀ i : Fin n, property i (phases i)) :=
    Method.keeps_over begins (fun _ holds stepped => ⟨trivial, continues holds stepped⟩)
      (fun _ holds stepped => ⟨trivial, returns holds stepped⟩)
  simpa only [true_and] using kept

end Keeps

-----------------------------------------------------------------------------------------
-- Finished runs
-----------------------------------------------------------------------------------------

/-- In a finished run every thread has returned from its method, and its statistics are
reported in the order of the threads.
-/
theorem System.Finished.returned {s : System M n} (finished : s.Finished)
    (coherent : Coherent s)
    : ∃ threads : Fin n → ThreadState,
        (∀ i, s.phases i = .finished (threads i))
        ∧ s.reports = (List.finRange n).map (fun i => (threads i).stats.report) := by
  obtain ⟨main, ended⟩ := finished
  have each : ∀ i, ∃ thread, s.workers i = .done thread := by
    intro i
    have last := ended i
    cases here : s.workers i with
    | done thread => exact ⟨thread, rfl⟩
    | _ => simp [here, Worker.ended] at last
  choose threads here using each
  refine ⟨threads, fun i => phases_of_worker (here i), ?_⟩
  rw [coherent.traced.reports, System.dueReports, main, MainPhase.reported,
    List.take_of_length_le (by simp)]
  simp [here, Worker.stats]

-----------------------------------------------------------------------------------------
-- Termination
-----------------------------------------------------------------------------------------

/-- A rank of the method's state that every step lowers, with a bound for each thread. -/
structure Method.Ranked (M : Method Store) (rank : M.Local → Nat) (budget : Nat → Nat)
    : Prop where
  begins {i : Nat} {now : M.Local} : M.init (.make i) = some now → rank now ≤ budget i
  continues {now next : M.Local} {store after : Store} {shared : SharedState}
    : M.step shared now store = .continues next after → rank next < rank now

/-- The steps a thread has left. A thread about to broadcast pays for the `width` others it
may wake.
-/
def Worker.weight (rank : M.Local → Nat) (width budget : Nat) : Worker M → Nat
  | .notStarted => 6 * width + budget
  | .initializing => 5 * width + budget
  | .asleep => 4 * width + budget
  | .awake => 4 * width + 1 + budget
  | .released => 3 * width + budget
  | .running now => width + 2 + rank now
  | .returned _ => width + 1
  | .stopped _ => width
  | .done _ => 0

/-- The steps the main thread has left. -/
def MainPhase.weight (n : Nat) : MainPhase → Nat
  | .spawning k => 6 * (n + 2) + (n - k)
  | .asleepInit => 4 * (n + 2)
  | .awakeInit => 4 * (n + 2) + 1
  | .asleepDone => 2 * (n + 2)
  | .awakeDone => 2 * (n + 2) + 1
  | .reporting k => n - k + 1
  | .finished => 0

section Termination

variable (rank : M.Local → Nat) (budget : Nat → Nat)

def System.workersWeight (s : System M n) : Nat :=
  ∑ i : Fin n, (s.workers i).weight rank (n + 2) (budget i)

def System.weight (s : System M n) : Nat :=
  (if s.aborted then 0 else 1) + s.main.weight n + s.workersWeight rank budget

variable {s after : System M n} {i : Fin n}

/-- Replacing a worker exchanges its weight. -/
theorem workersWeight_replace {old : Worker M} (here : s.workers i = old) (worker : Worker M)
    (workers : after.workers = Function.update s.workers i worker)
    : after.workersWeight rank budget + old.weight rank (n + 2) (budget i)
      = s.workersWeight rank budget + worker.weight rank (n + 2) (budget i) := by
  rw [System.workersWeight, workers, ← here]
  exact sum_replace (fun i worker => worker.weight rank (n + 2) (budget i)) s.workers i worker

/-- A broadcast adds at most one step for each thread. -/
theorem workersWeight_signalAll (s : System M n)
    : s.signalAll.workersWeight rank budget ≤ s.workersWeight rank budget + n := by
  refine sum_le_add (fun (i : Fin n) (worker : Worker M) =>
    worker.weight rank (n + 2) (budget i)) ?_
  intro i
  cases here : s.workers i with
  | asleep =>
      simp only [System.signalAll, here, Worker.wake, Worker.weight]
      omega
  | _ => simp [System.signalAll, here, Worker.wake, Worker.weight]

theorem MainPhase.weight_wake (main : MainPhase)
    : main.wake.weight n ≤ main.weight n + 1 := by
  cases main <;> simp [MainPhase.wake, MainPhase.weight]

theorem signalIf_weight (s : System M n) (condition : Prop) [Decidable condition]
    : (s.signalIf condition).workersWeight rank budget ≤ s.workersWeight rank budget + n
      ∧ (s.signalIf condition).main.weight n ≤ s.main.weight n + 1 := by
  unfold System.signalIf
  split
  · exact ⟨workersWeight_signalAll rank budget s, s.main.weight_wake⟩
  · exact ⟨Nat.le_add_right _ _, Nat.le_add_right _ _⟩

/-- A move of the main thread that at most broadcasts lowers the weight when the main
thread pays for the broadcast.
-/
theorem weight_main (paid : Nat)
    (workers : after.workersWeight rank budget ≤ s.workersWeight rank budget + paid)
    (aborted : after.aborted = s.aborted) (lighter : after.main.weight n + paid < s.main.weight n)
    : after.weight rank budget < s.weight rank budget := by
  rw [System.weight, System.weight, aborted]
  omega

/-- A worker's own move lowers the weight when it leaves the worker lighter. -/
theorem weight_replace {old : Worker M} (here : s.workers i = old) (worker : Worker M)
    (workers : after.workers = Function.update s.workers i worker)
    (main : after.main = s.main) (aborted : after.aborted = s.aborted)
    (lighter : worker.weight rank (n + 2) (budget i) < old.weight rank (n + 2) (budget i))
    : after.weight rank budget < s.weight rank budget := by
  have exchanged := workersWeight_replace rank budget here worker workers
  rw [System.weight, System.weight, main, aborted]
  omega

/-- A critical section lowers the weight when its thread pays for the broadcast. -/
theorem weight_signal {old : Worker M} (here : s.workers i = old) (steady : old.wake = old)
    (shared : SharedState) (condition : Prop) [Decidable condition] (worker : Worker M)
    (lighter : worker.weight rank (n + 2) (budget i) + (n + 2)
      ≤ old.weight rank (n + 2) (budget i))
    : (((s.setShared shared).signalIf condition).setWorker i worker).weight rank budget
      < s.weight rank budget := by
  obtain ⟨workers, main⟩ := signalIf_weight rank budget (s.setShared shared) condition
  have before : ((s.setShared shared).signalIf condition).workers i = old := by
    unfold System.signalIf
    split
    · exact (congrArg Worker.wake here).trans steady
    · exact here
  have exchanged := workersWeight_replace rank budget before worker
    (rfl : (((s.setShared shared).signalIf condition).setWorker i worker).workers = _)
  have same : (s.setShared shared).workersWeight rank budget = s.workersWeight rank budget := rfl
  have mainSame : (s.setShared shared).main = s.main := rfl
  have mainKept : (((s.setShared shared).signalIf condition).setWorker i worker).main
      = ((s.setShared shared).signalIf condition).main := rfl
  have kept : (((s.setShared shared).signalIf condition).setWorker i worker).aborted = s.aborted :=
    System.signalIf_aborted _ _
  rw [mainSame] at main
  rw [System.weight, System.weight, kept, mainKept]
  omega

/-- Waiting for the end leaves the main thread with at most the steps of its wait. -/
theorem awaitDone_weight (s : System M n)
    : s.awaitDone.workersWeight rank budget = s.workersWeight rank budget
      ∧ s.awaitDone.main.weight n ≤ 2 * (n + 2) := by
  unfold System.awaitDone
  split
  · exact ⟨rfl, Nat.le_refl _⟩
  · refine ⟨rfl, ?_⟩
    simp only [MainPhase.weight]
    omega

/-- Waiting for the threads lowers the weight: opening the gate pays for the broadcast. -/
theorem weight_awaitInitialized (heavy : 4 * (n + 2) < s.main.weight n)
    : s.awaitInitialized.weight rank budget < s.weight rank budget := by
  unfold System.awaitInitialized
  split
  · exact weight_main rank budget 0 (Nat.le_refl _) rfl heavy
  · obtain ⟨workers, light⟩ :=
      awaitDone_weight rank budget (s.setShared { s.shared with start := true }).signalAll
    refine weight_main rank budget n ?_ (System.awaitDone_aborted _) (by omega)
    rw [workers]
    exact workersWeight_signalAll rank budget (s.setShared { s.shared with start := true })

/-- Every transition lowers the weight. Witness: the exchanged weights, case by case. -/
theorem weight_falls (ranked : M.Ranked rank budget) (alive : s.aborted = false)
    (unspawned : ∀ i : Fin n, s.main = .spawning i → s.workers i = .notStarted)
    (transition : Transition s true after)
    : after.weight rank budget < s.weight rank budget := by
  cases transition with
  | spawn i here =>
      have exchanged := workersWeight_replace rank budget (unspawned i here) .initializing
        (rfl : (s.spawn i).workers = _)
      have less := i.isLt
      have aborted : (s.spawn i).aborted = s.aborted := rfl
      have main : (s.spawn i).main = .spawning (i + 1) := rfl
      simp only [Worker.weight] at exchanged
      rw [System.weight, System.weight, here, main, aborted]
      simp only [MainPhase.weight]
      omega
  | awaitInitialized k here =>
      apply weight_awaitInitialized
      rcases here with ⟨here, _⟩ | here
      · simp only [here, MainPhase.weight]
        omega
      · simp only [here, MainPhase.weight]
        omega
  | awaitDone here =>
      obtain ⟨workers, light⟩ := awaitDone_weight rank budget s
      refine weight_main rank budget 0 (Nat.le_of_eq workers) (System.awaitDone_aborted s) ?_
      rw [here]
      exact Nat.lt_succ_of_le light
  | reportThread i here =>
      have less := i.isLt
      refine weight_main rank budget 0 (Nat.le_refl _) rfl ?_
      rw [here]
      simp only [System.reportThread, MainPhase.weight]
      omega
  | mainReturns k here all =>
      refine weight_main rank budget 0 (Nat.le_refl _) rfl ?_
      rw [here]
      simp only [MainPhase.weight]
      omega
  | enterBarrier i here =>
      unfold System.enterBarrier
      rw [System.awaitStart_eq]
      apply weight_signal rank budget here rfl
      split
      · simp only [Worker.weight]
        omega
      · simp only [Worker.weight]
        omega
  | awaitStart i here =>
      rw [System.awaitStart_eq]
      refine weight_replace rank budget here _ rfl rfl rfl ?_
      split
      · simp only [Worker.weight]
        omega
      · simp only [Worker.weight]
        omega
  | begins i here now entered =>
      have bound := ranked.begins entered
      refine weight_replace rank budget here (.running now) rfl rfl rfl ?_
      simp only [Worker.weight]
      omega
  | continues i now next store here stepped =>
      have falls := ranked.continues stepped
      refine weight_replace rank budget here (.running next) rfl rfl rfl ?_
      simp only [Worker.weight]
      omega
  | returns i now thread store here stepped =>
      refine weight_replace rank budget here (.returned thread) rfl rfl rfl ?_
      simp only [Worker.weight]
      omega
  | aborts i cause =>
      simp only [System.weight, System.workersWeight, alive]
      simp
  | stop i thread here =>
      refine weight_replace rank budget here (.stopped thread) rfl rfl rfl ?_
      simp only [Worker.weight]
      omega
  | finish i thread here =>
      apply weight_signal rank budget here rfl
      simp only [Worker.weight]
      omega

/-- A spurious wake-up adds at most one step. -/
theorem weight_wakes (transition : Transition s false after)
    : after.weight rank budget ≤ s.weight rank budget + 1 := by
  cases transition with
  | wakeMain here =>
      have woken := s.main.weight_wake (n := n)
      simp only [System.weight, System.workersWeight]
      omega
  | wakeWorker i here =>
      have exchanged := workersWeight_replace rank budget here .awake
        (rfl : (s.setWorker i .awake).workers = _)
      have aborted : (s.setWorker i .awake).aborted = s.aborted := rfl
      have main : (s.setWorker i .awake).main = s.main := rfl
      simp only [Worker.weight] at exchanged
      rw [System.weight, System.weight, main, aborted]
      omega

end Termination

/-- Every run can be completed: no interleaving ends the process, each reaches the end of
the benchmark, and apart from spurious wake-ups its length is bounded.
-/
structure Method.Completes (M : Method Store) (n : Nat) (store : Store) : Prop where
  unaborted : ∀ s, Reachable System.step (System.init M n store) s → s.aborted = false
  completable : ∀ s, Reachable System.step (System.init M n store) s
    → ∃ final, Reachable System.step s final ∧ final.Finished
  bounded : ∃ bound, ∀ schedule s,
    execute System.step schedule (System.init M n store) = some s
    → schedule.countP Action.productive
      ≤ bound + schedule.countP (fun action => !action.productive)

/-- The protocol's invariants together with a property of the method. -/
structure Runs (property : (Fin n → Phase M) → Store → Prop) (s : System M n) : Prop where
  coherent : Coherent s
  wakeful : Wakeful s
  holds : property s.phases s.store
  alive : s.aborted = false

section Completion

variable {rank : M.Local → Nat} {budget : Nat → Nat}
  {property : (Fin n → Phase M) → Store → Prop}

/-- A method that never ends the process, from states it keeps. -/
structure Method.Safe (M : Method Store) (n : Nat)
    (property : (Fin n → Phase M) → Store → Prop) : Prop where
  keeps : M.Keeps n property
  enters : ∀ i : Fin n, M.init (.make i) ≠ none
  steps : ∀ {phases store} {i : Fin n} {now}, property phases store
    → phases i = .running now → ∀ shared, M.step shared now store ≠ .aborts

theorem Runs.init (store : Store) (initial : property (fun _ => .waiting) store)
    : Runs property (System.init M n store) where
  coherent := ⟨.init M n store, .init M n store⟩
  wakeful := ⟨by simp [System.init], by simp [System.init], by simp [System.init]⟩
  holds := initial
  alive := rfl

/-- A safe method keeps the process alive. -/
theorem Runs.preserved (safe : M.Safe n property) {s after : System M n} (runs : Runs property s)
    {productive : Bool} (transition : Transition s productive after)
    : Runs property after := by
  have next : MethodStep s after := transition.methodStep runs.coherent.counters
  refine ⟨runs.coherent.preserved transition,
    runs.wakeful.preserved runs.coherent.counters transition, ?_, ?_⟩
  · exact safe.keeps.methodStep runs.holds next
  · cases transition with
    | aborts i cause =>
        rcases cause with ⟨_, refused⟩ | ⟨now, here, stopped⟩
        · exact absurd refused (safe.enters i)
        · exact absurd stopped (safe.steps runs.holds (phases_of_worker here) s.shared)
    | awaitInitialized k here => exact (System.awaitInitialized_aborted s).trans runs.alive
    | awaitDone here => exact (System.awaitDone_aborted s).trans runs.alive
    | enterBarrier i here =>
        exact ((System.awaitStart_aborted _ i).trans (System.signalIf_aborted _ _)).trans runs.alive
    | awaitStart i here => exact (System.awaitStart_aborted s i).trans runs.alive
    | finish i thread here => exact (System.signalIf_aborted _ _).trans runs.alive
    | _ => exact runs.alive

/-- The weight ranks the runs of a safe method with a rank. -/
theorem Method.Safe.ranking (safe : M.Safe n property) (ranked : M.Ranked rank budget)
    : Ranking System.step Action.productive (Runs property)
        (System.weight rank budget : System M n → Nat) where
  preserved action before after runs taken :=
    runs.preserved safe (System.step_transition taken).2
  falls action before after runs taken := by
    have transition := (System.step_transition taken).2
    cases kind : action.productive with
    | true =>
        rw [kind] at transition
        have falls := weight_falls rank budget ranked runs.alive
          runs.coherent.counters.unspawned transition
        simp only [if_true]
        omega
    | false =>
        rw [kind] at transition
        have wakes := weight_wakes rank budget transition
        simp only [Bool.false_eq_true, if_false]
        omega

/-- A safe method with a rank completes every run, by the ranking and `progress`. -/
theorem Method.Safe.completes (safe : M.Safe n property) (ranked : M.Ranked rank budget)
    {store : Store} (initial : property (fun _ => .waiting) store)
    : M.Completes n store := by
  have ranking := safe.ranking ranked
  have runs : ∀ s, Reachable System.step (System.init M n store) s → Runs property s := by
    intro s reachable
    exact reachable.invariant (Runs property) (.init store initial) ranking.preserved
  refine ⟨fun s reachable => (runs s reachable).alive, ?_, ?_⟩
  · intro s reachable
    apply ranking.reaches _ (runs s reachable)
    intro state holds
    exact progress holds.coherent holds.wakeful holds.alive
  · exact ⟨_, fun schedule s executed => ranking.bounds (.init store initial) executed⟩

end Completion

end PMKVLab.Bench
