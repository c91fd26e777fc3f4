import PMKVLab.Bench.Protocol

/-! What one scheduler choice can do, said once: the list of transitions, the stage each
thread is in, and the rule for properties that depend only on the benchmark method.
-/

namespace PMKVLab.Bench

open PMKVLab.Library

variable {Store : Type} {M : Method Store} {n : Nat}

/-- The transitions of a running process, each with its guard; the flag tells them from
spurious wake-ups.
-/
inductive Transition (s : System M n) : Bool → System M n → Prop
  | spawn (i : Fin n) (here : s.main = .spawning i) : Transition s true (s.spawn i)
  | awaitInitialized (k : Nat) (here : (s.main = .spawning k ∧ n ≤ k) ∨ s.main = .awakeInit)
    : Transition s true s.awaitInitialized
  | awaitDone (here : s.main = .awakeDone) : Transition s true s.awaitDone
  | reportThread (i : Fin n) (here : s.main = .reporting i) : Transition s true (s.reportThread i)
  | mainReturns (k : Nat) (here : s.main = .reporting k) (all : n ≤ k)
    : Transition s true { s with main := .finished }
  | wakeMain (here : s.main = .asleepInit ∨ s.main = .asleepDone)
    : Transition s false { s with main := s.main.wake }
  | enterBarrier (i : Fin n) (here : s.workers i = .initializing)
    : Transition s true (s.enterBarrier i)
  | awaitStart (i : Fin n) (here : s.workers i = .awake) : Transition s true (s.awaitStart i)
  | begins (i : Fin n) (here : s.workers i = .released) (now : M.Local)
    (entered : M.init (.make i) = some now)
    : Transition s true { s.setWorker i (.running now) with events := s.events ++ [.began i] }
  | continues (i : Fin n) (now next : M.Local) (store : Store)
    (here : s.workers i = .running now)
    (stepped : M.step s.shared now s.store = .continues next store)
    : Transition s true { s.setWorker i (.running next) with store := store }
  | returns (i : Fin n) (now : M.Local) (thread : ThreadState) (store : Store)
    (here : s.workers i = .running now)
    (stepped : M.step s.shared now s.store = .returns thread store)
    : Transition s true { s.setWorker i (.returned thread) with store := store }
  | aborts (i : Fin n)
    (cause : (s.workers i = .released ∧ M.init (.make i) = none)
      ∨ ∃ now, s.workers i = .running now ∧ M.step s.shared now s.store = .aborts)
    : Transition s true { s with aborted := true }
  | stop (i : Fin n) (thread : ThreadState) (here : s.workers i = .returned thread)
    : Transition s true (s.stop i thread)
  | finish (i : Fin n) (thread : ThreadState) (here : s.workers i = .stopped thread)
    : Transition s true (s.finish i thread)
  | wakeWorker (i : Fin n) (here : s.workers i = .asleep)
    : Transition s false (s.setWorker i .awake)

namespace System

/-- Every step of a worker is one of its transitions, by cases on where the worker is. -/
theorem workerStep_transition {s after : System M n} {i : Fin n}
    (taken : s.workerStep i = some after)
    : Transition s true after := by
  unfold workerStep at taken
  cases here : s.workers i with
  | notStarted | asleep | done thread => simp [here] at taken
  | initializing =>
      simp only [here, Option.some.injEq] at taken
      exact taken ▸ .enterBarrier i here
  | awake =>
      simp only [here, Option.some.injEq] at taken
      exact taken ▸ .awaitStart i here
  | released =>
      simp only [here, Option.some.injEq] at taken
      subst taken
      unfold beginMethod
      cases entered : M.init (.make i) with
      | none => exact .aborts i (.inl ⟨here, entered⟩)
      | some now => exact .begins i here now entered
  | running now =>
      simp only [here, Option.some.injEq] at taken
      subst taken
      unfold advance
      cases stepped : M.step s.shared now s.store with
      | continues next store => exact .continues i now next store here stepped
      | returns thread store => exact .returns i now thread store here stepped
      | aborts => exact .aborts i (.inr ⟨now, here, stepped⟩)
  | returned thread =>
      simp only [here, Option.some.injEq] at taken
      exact taken ▸ .stop i thread here
  | stopped thread =>
      simp only [here, Option.some.injEq] at taken
      exact taken ▸ .finish i thread here

/-- Every step of the main thread is one of its transitions, by cases on its phase. -/
theorem mainStep_transition {s after : System M n} (taken : s.mainStep = some after)
    : Transition s true after := by
  unfold mainStep at taken
  cases here : s.main with
  | spawning k =>
      simp only [here] at taken
      split at taken
      · next less =>
        cases taken
        exact .spawn ⟨k, less⟩ here
      · next all =>
        cases taken
        exact .awaitInitialized k (.inl ⟨here, Nat.le_of_not_lt all⟩)
  | awakeInit =>
      simp only [here, Option.some.injEq] at taken
      exact taken ▸ .awaitInitialized 0 (.inr here)
  | awakeDone =>
      simp only [here, Option.some.injEq] at taken
      exact taken ▸ .awaitDone here
  | reporting k =>
      simp only [here] at taken
      split at taken
      · next less =>
        cases taken
        exact .reportThread ⟨k, less⟩ here
      · next all =>
        cases taken
        exact .mainReturns k here (Nat.le_of_not_lt all)
  | asleepInit | asleepDone | finished => simp [here] at taken

/-- Every scheduler choice that can be taken is a transition of a process that has not
been aborted.
-/
theorem step_transition {s after : System M n} {action : Action}
    (taken : s.step action = some after)
    : s.aborted = false ∧ Transition s action.productive after := by
  have running : s.aborted = false := by
    cases running : s.aborted with
    | true => simp [step, running] at taken
    | false => rfl
  refine ⟨running, ?_⟩
  unfold step at taken
  rw [if_neg (by simp [running])] at taken
  cases action with
  | main => exact mainStep_transition taken
  | worker i =>
      simp only at taken
      split at taken
      · exact workerStep_transition taken
      · cases taken
  | wakeMain =>
      cases here : s.main with
      | asleepInit =>
          simp only [here, Option.some.injEq] at taken
          exact taken ▸ here ▸ .wakeMain (.inl here)
      | asleepDone =>
          simp only [here, Option.some.injEq] at taken
          exact taken ▸ here ▸ .wakeMain (.inr here)
      | spawning _ | awakeInit | awakeDone | reporting _ | finished => simp [here] at taken
  | wakeWorker i =>
      simp only at taken
      split at taken
      · next less =>
        cases here : s.workers ⟨i, less⟩ with
        | asleep =>
            simp only [here, Option.some.injEq] at taken
            exact taken ▸ .wakeWorker ⟨i, less⟩ here
        | _ => simp [here] at taken
      · cases taken

end System

-----------------------------------------------------------------------------------------
-- Stages
-----------------------------------------------------------------------------------------

/-- How far a thread has come in `ThreadBody`; sleeping and waking are one stage. -/
def Worker.stage : Worker M → Nat
  | .notStarted => 0
  | .initializing => 1
  | .asleep | .awake => 2
  | .released => 3
  | .running _ => 4
  | .returned _ => 5
  | .stopped _ => 6
  | .done _ => 7

/-- How far the main thread has come in `RunBenchmark`. -/
def MainPhase.stage : MainPhase → Nat
  | .spawning _ => 0
  | .asleepInit | .awakeInit => 1
  | .asleepDone | .awakeDone => 2
  | .reporting _ => 3
  | .finished => 4

/-- The number of threads started so far, out of `n`. -/
def MainPhase.spawned (n : Nat) : MainPhase → Nat
  | .spawning k => k
  | _ => n

/-- The number of threads reported so far, out of `n`. -/
def MainPhase.reported (n : Nat) : MainPhase → Nat
  | .reporting k => k
  | .finished => n
  | _ => 0

@[simp] theorem Worker.stage_wake (worker : Worker M) : worker.wake.stage = worker.stage := by
  cases worker <;> rfl

/-- Only an ended thread has the last stage. -/
theorem Worker.ended_of_stage {worker : Worker M} (last : 7 ≤ worker.stage)
    : worker.ended = true := by
  cases worker with
  | done thread => rfl
  | _ => simp [Worker.stage] at last

@[simp] theorem MainPhase.stage_wake (main : MainPhase) : main.wake.stage = main.stage := by
  cases main <;> rfl

@[simp] theorem MainPhase.spawned_wake (main : MainPhase)
    : main.wake.spawned n = main.spawned n := by
  cases main <;> rfl

@[simp] theorem MainPhase.reported_wake (main : MainPhase)
    : main.wake.reported n = main.reported n := by
  cases main <;> rfl

/-- Nothing is reported before the last stages. -/
theorem MainPhase.reported_of_stage {main : MainPhase} (early : main.stage < 3)
    : main.reported n = 0 := by
  cases main with
  | reporting k => simp [MainPhase.stage] at early
  | finished => simp [MainPhase.stage] at early
  | _ => rfl

namespace System

def stages (s : System M n) : Fin n → Nat := fun i => (s.workers i).stage

theorem stages_of_worker {s : System M n} {i : Fin n} {worker : Worker M}
    (here : s.workers i = worker)
    : s.stages i = worker.stage :=
  congrArg Worker.stage here

theorem stages_of_same {s after : System M n} (same : after.workers = s.workers)
    : after.stages = s.stages :=
  funext (fun i => congrArg Worker.stage (congrFun same i))

/-- Replacing a worker replaces its stage. -/
theorem stages_of_update {s after : System M n} {i : Fin n} {worker : Worker M}
    (workers : after.workers = Function.update s.workers i worker)
    : after.stages = Function.update s.stages i worker.stage := by
  funext j
  by_cases same : j = i
  · subst same
    simp [stages, workers]
  · simp [stages, workers, same]

@[simp] theorem stages_setWorker (s : System M n) (i : Fin n) (worker : Worker M)
    : (s.setWorker i worker).stages = Function.update s.stages i worker.stage :=
  stages_of_update rfl

@[simp] theorem stages_signalAll (s : System M n) : s.signalAll.stages = s.stages := by
  funext j
  exact Worker.stage_wake (s.workers j)

@[simp] theorem stages_signalIf (s : System M n) (condition : Prop) [Decidable condition]
    : (s.signalIf condition).stages = s.stages := by
  unfold signalIf
  split
  · exact stages_signalAll s
  · rfl

@[simp] theorem stages_setShared (s : System M n) (shared : SharedState)
    : (s.setShared shared).stages = s.stages :=
  rfl

@[simp] theorem setShared_shared (s : System M n) (shared : SharedState)
    : (s.setShared shared).shared = shared :=
  rfl

@[simp] theorem setWorker_shared (s : System M n) (i : Fin n) (worker : Worker M)
    : (s.setWorker i worker).shared = s.shared :=
  rfl

@[simp] theorem signalIf_shared (s : System M n) (condition : Prop) [Decidable condition]
    : (s.signalIf condition).shared = s.shared := by
  unfold signalIf
  split <;> rfl

/-- The main thread is woken exactly when the condition holds. -/
theorem signalIf_main (s : System M n) (condition : Prop) [Decidable condition]
    : (s.signalIf condition).main = if condition then s.main.wake else s.main := by
  unfold signalIf
  split <;> rfl

@[simp] theorem signalIf_aborted (s : System M n) (condition : Prop) [Decidable condition]
    : (s.signalIf condition).aborted = s.aborted := by
  unfold signalIf
  split <;> rfl

@[simp] theorem awaitDone_aborted (s : System M n) : s.awaitDone.aborted = s.aborted := by
  unfold awaitDone
  split <;> rfl

@[simp] theorem awaitInitialized_aborted (s : System M n)
    : s.awaitInitialized.aborted = s.aborted := by
  unfold awaitInitialized
  split
  · rfl
  · exact awaitDone_aborted _

@[simp] theorem awaitStart_aborted (s : System M n) (i : Fin n)
    : (s.awaitStart i).aborted = s.aborted := by
  unfold awaitStart
  split <;> rfl

/-- A thread that waits for `start` is past the barrier when it is set, and in front of it
otherwise.
-/
theorem awaitStart_eq (s : System M n) (i : Fin n)
    : s.awaitStart i = s.setWorker i (if s.shared.start then .released else .asleep) := by
  unfold awaitStart
  split <;> rfl

end System

end PMKVLab.Bench
