import PMKVLab.Library.Transitions

/-! The background queue of `PosixEnv` in `env_posix.cc`: `Schedule`, called by any number
of threads, and the thread that runs `BGThread`. Critical sections are atomic up to the
next `pthread_cond_wait`, and sleepers may also wake spuriously.
-/

namespace PMKVLab.Env

open PMKVLab.Library

variable {Item : Type}

/-- Where a thread is in `BGThread`: before the mutex, inside `pthread_cond_wait`, woken
but without the mutex, past the unlock with an item, or inside the item's function.
-/
inductive BGThread (Item : Type)
  | locking
  | asleep
  | awake
  | holding (item : Item)
  | calling (item : Item)
deriving DecidableEq, Repr

/-- The fields `Schedule` and `BGThread` share, the threads created so far, and the history
of what was scheduled, called and returned from.
-/
structure Background (Item : Type) where
  startedBgthread : Bool
  queue : List Item
  threads : List (BGThread Item)
  aborted : Bool
  scheduled : List Item
  called : List Item
  returned : List Item
deriving DecidableEq, Repr

/-- Scheduler choices: a whole call of `Schedule`, a background thread up to its next
scheduling point, or a spurious wake-up. `created` says whether `pthread_create` succeeds
and `woken` which sleeper a signal wakes. The functions of the items may call `Schedule`.
-/
inductive BackgroundAction (Item : Type)
  | schedule (item : Item) (created : Bool) (woken : Nat)
  | run (i : Nat)
  | wake (i : Nat)
deriving DecidableEq, Repr

namespace BGThread

/-- An item popped off the queue whose function has not been called yet. -/
def held : BGThread Item → List Item
  | .holding item => [item]
  | _ => []

/-- The item whose function is being called. -/
def inCall : BGThread Item → List Item
  | .calling item => [item]
  | _ => []

def isAsleep : BGThread Item → Bool
  | .asleep => true
  | _ => false

end BGThread

namespace Background

/-- `PosixEnv` after its constructor. -/
def init (Item : Type) : Background Item where
  startedBgthread := false
  queue := []
  threads := []
  aborted := false
  scheduled := []
  called := []
  returned := []

def setThread (s : Background Item) (i : Nat) (thread : BGThread Item) : Background Item :=
  { s with threads := s.threads.set i thread }

def wake (s : Background Item) (i : Nat) : Option (Background Item) :=
  match s.threads[i]? with
  | some .asleep => some (s.setThread i .awake)
  | _ => none

/-- `pthread_cond_signal` wakes one of the sleepers, if there is one. -/
def signal (s : Background Item) (woken : Nat) : Option (Background Item) :=
  if s.threads.any BGThread.isAsleep then s.wake woken else some s

/-- The first call starts the background thread; `PthreadCall` aborts when it cannot. -/
def startBgthread (s : Background Item) (created : Bool) : Background Item :=
  if s.startedBgthread then s
  else if created then
    { s with startedBgthread := true, threads := s.threads ++ [.locking] }
  else { s with startedBgthread := true, aborted := true }

def push (s : Background Item) (item : Item) : Background Item :=
  { s with queue := s.queue ++ [item], scheduled := s.scheduled ++ [item] }

/-- `Schedule`: the signal comes before the push, both under the mutex. -/
def schedule (s : Background Item) (item : Item) (created : Bool) (woken : Nat)
    : Option (Background Item) :=
  let started := s.startBgthread created
  if started.aborted then some started
  else if started.queue.isEmpty then (started.signal woken).map (·.push item)
  else some (started.push item)

/-- `while (queue_.empty()) pthread_cond_wait(...)`, up to the next wait, and the pop. -/
def awaitItem (s : Background Item) (i : Nat) : Background Item :=
  match s.queue with
  | [] => s.setThread i .asleep
  | item :: rest => { s.setThread i (.holding item) with queue := rest }

/-- One thread of `BGThread`; the step of a thread inside a function is its return. -/
def run (s : Background Item) (i : Nat) : Option (Background Item) :=
  match s.threads[i]? with
  | some .locking | some .awake => some (s.awaitItem i)
  | some (.holding item) =>
      some { s.setThread i (.calling item) with called := s.called ++ [item] }
  | some (.calling item) =>
      some { s.setThread i .locking with returned := s.returned ++ [item] }
  | some .asleep | none => none

def step (action : BackgroundAction Item) (s : Background Item)
    : Option (Background Item) :=
  if s.aborted then none
  else
    match action with
    | .schedule item created woken => s.schedule item created woken
    | .run i => s.run i
    | .wake i => s.wake i

end Background

-----------------------------------------------------------------------------------------
-- Order
-----------------------------------------------------------------------------------------

/-- At most one background thread, which takes the items in the order of their `Schedule`
calls and never sleeps on a nonempty queue.
-/
structure Background.Orderly (s : Background Item) : Prop where
  single : s.threads.length ≤ 1
  started : s.threads ≠ [] → s.startedBgthread = true
  created : s.startedBgthread = true → s.aborted = false → s.threads ≠ []
  order : s.scheduled = s.called ++ s.threads.flatMap BGThread.held ++ s.queue
  calls : s.called = s.returned ++ s.threads.flatMap BGThread.inCall
  sleeping : BGThread.asleep ∈ s.threads → s.queue = []
  unserved : s.threads = [] → s.queue = []

namespace Background

variable {s next : Background Item}

theorem init_orderly (Item : Type) : (init Item).Orderly where
  single := by simp [init]
  started := by simp [init]
  created := by simp [init]
  order := rfl
  calls := rfl
  sleeping := by simp [init]
  unserved := by simp [init]

/-- The order in terms of the only thread. -/
theorem orderly_iff {thread : BGThread Item} (threads : s.threads = [thread])
    : s.Orderly
      ↔ s.startedBgthread = true
        ∧ s.scheduled = s.called ++ thread.held ++ s.queue
        ∧ s.called = s.returned ++ thread.inCall
        ∧ (thread = .asleep → s.queue = []) := by
  constructor
  · intro orderly
    have order := orderly.order
    have calls := orderly.calls
    exact ⟨orderly.started (by simp [threads]), by simpa [threads] using order,
      by simpa [threads] using calls, fun asleep => orderly.sleeping (by simp [threads, asleep])⟩
  · rintro ⟨started, order, calls, sleeping⟩
    exact {
      single := by simp [threads]
      started := fun _ => started
      created := fun _ _ => by simp [threads]
      order := by simpa [threads] using order
      calls := by simpa [threads] using calls
      sleeping := fun member => sleeping (List.mem_singleton.mp (threads ▸ member)).symm
      unserved := by simp [threads] }

/-- The thread that takes a step is the only one. -/
theorem Orderly.only (orderly : s.Orderly) {i : Nat} {thread : BGThread Item}
    (found : s.threads[i]? = some thread)
    : i = 0 ∧ s.threads = [thread] := by
  have single := orderly.single
  match threads : s.threads, found with
  | [only], found =>
      cases i with
      | zero => simpa using found
      | succ i => simp at found
  | _ :: _ :: _, _ => simp [threads] at single

/-- A wake-up keeps the order. -/
theorem Orderly.wake (orderly : s.Orderly) {i : Nat} (woken : s.wake i = some next)
    : next.Orderly ∧ s.threads = [.asleep] ∧ next = { s with threads := [.awake] } := by
  unfold Background.wake at woken
  split at woken
  · next found =>
      obtain ⟨rfl, threads⟩ := orderly.only found
      have same : next = { s with threads := [.awake] } := by
        cases woken
        simp [setThread, threads]
      subst same
      obtain ⟨started, order, calls, _⟩ := (orderly_iff threads).mp orderly
      refine ⟨(orderly_iff rfl).mpr ⟨started, ?_, ?_, by simp⟩, threads, rfl⟩
      · simpa [BGThread.held] using order
      · simpa [BGThread.inCall] using calls
  · cases woken

/-- What one call of `Schedule` does: it aborts, creates the thread, wakes the thread, or
leaves a thread that is not asleep alone.
-/
inductive ScheduleStep (s : Background Item) (item : Item) : Background Item → Prop
  | aborts (none : s.threads = [])
      : ScheduleStep s item { s with startedBgthread := true, aborted := true }
  | creates (none : s.threads = [])
      : ScheduleStep s item
          (push { s with startedBgthread := true, threads := [.locking] } item)
  | wakes (sleeping : s.threads = [.asleep])
      : ScheduleStep s item (push { s with threads := [.awake] } item)
  | pushes {thread : BGThread Item} (only : s.threads = [thread])
      (attentive : thread.isAsleep = false)
      : ScheduleStep s item (s.push item)

/-- A call on a thread that exists: the signal reaches it when it sleeps, since the queue is
then empty.
-/
theorem Orderly.signalled (orderly : s.Orderly) (already : s.startedBgthread = true)
    (running : s.aborted = false) {item : Item} {created : Bool} {woken : Nat}
    (scheduled : s.schedule item created woken = some next)
    : ScheduleStep s item next := by
  have same : s.startBgthread created = s := by simp [Background.startBgthread, already]
  obtain ⟨thread, threads⟩ : ∃ thread, s.threads = [thread] := by
    have single := orderly.single
    have exists_thread := orderly.created already running
    match threads : s.threads with
    | [] => exact absurd threads exists_thread
    | [thread] => exact ⟨thread, rfl⟩
    | _ :: _ :: _ => simp [threads] at single
  simp only [Background.schedule, same, running, Bool.false_eq_true, if_false] at scheduled
  cases asleep : thread.isAsleep with
  | true =>
      have sleeping : thread = .asleep := by
        cases thread <;> simp [BGThread.isAsleep] at asleep ⊢
      have empty : s.queue = [] := orderly.sleeping (by simp [threads, sleeping])
      rw [empty, List.isEmpty_nil, if_pos rfl] at scheduled
      obtain ⟨signalled, sent, rfl⟩ := Option.map_eq_some_iff.mp scheduled
      rw [Background.signal, threads, List.any_cons, asleep, Bool.true_or, if_pos rfl] at sent
      obtain ⟨_, before, rfl⟩ := orderly.wake sent
      exact .wakes before
  | false =>
      have kept : s.signal woken = some s := by simp [Background.signal, threads, asleep]
      rw [kept, Option.map_some, ite_self] at scheduled
      cases scheduled
      exact .pushes threads asleep

/-- Every call of `Schedule` is one of the four. -/
theorem Orderly.scheduleStep (orderly : s.Orderly) (running : s.aborted = false)
    {item : Item} {created : Bool} {woken : Nat}
    (scheduled : s.schedule item created woken = some next)
    : ScheduleStep s item next := by
  cases already : s.startedBgthread with
  | true => exact orderly.signalled already running scheduled
  | false =>
      have none : s.threads = [] := by
        by_contra some
        simp [orderly.started some] at already
      cases created with
      | true =>
          have created : s.schedule item true woken
              = some (push { s with startedBgthread := true, threads := [.locking] } item) := by
            simp [Background.schedule, Background.startBgthread, Background.signal,
              BGThread.isAsleep, already, none, running]
          rw [created] at scheduled
          cases scheduled
          exact .creates none
      | false =>
          have aborted : s.schedule item false woken
              = some { s with startedBgthread := true, aborted := true } := by
            simp [Background.schedule, Background.startBgthread, already]
          rw [aborted] at scheduled
          cases scheduled
          exact .aborts none

/-- `Schedule` keeps the order. -/
theorem Orderly.schedule (orderly : s.Orderly) {item : Item}
    (scheduled : ScheduleStep s item next)
    : next.Orderly := by
  cases scheduled with
  | aborts none =>
      exact { orderly with
        started := fun _ => rfl
        created := by simp }
  | creates none =>
      have order := orderly.order
      have calls := orderly.calls
      refine (orderly_iff rfl).mpr ⟨rfl, ?_, ?_, by simp⟩
      · simp [push, order, none, BGThread.held]
      · simpa [push, none, BGThread.inCall] using calls
  | wakes sleeping =>
      obtain ⟨started, order, calls, _⟩ := (orderly_iff sleeping).mp orderly
      refine (orderly_iff rfl).mpr ⟨started, ?_, ?_, by simp⟩
      · simp [push, order, BGThread.held]
      · simpa [push, BGThread.inCall] using calls
  | pushes only attentive =>
      obtain ⟨started, order, calls, _⟩ := (orderly_iff only).mp orderly
      have kept : (s.push item).threads = [_] := only
      refine (orderly_iff kept).mpr ⟨started, ?_, calls, ?_⟩
      · simp [push, order]
      · rintro rfl
        simp [BGThread.isAsleep] at attentive

/-- What one step of the only background thread does. -/
inductive RunStep (s : Background Item) : Background Item → Prop
  | sleeps (ready : s.threads = [.locking] ∨ s.threads = [.awake]) (empty : s.queue = [])
      : RunStep s { s with threads := [.asleep] }
  | takes {item : Item} {rest : List Item}
      (ready : s.threads = [.locking] ∨ s.threads = [.awake]) (front : s.queue = item :: rest)
      : RunStep s { s with threads := [.holding item], queue := rest }
  | calls {item : Item} (holding : s.threads = [.holding item])
      : RunStep s { s with threads := [.calling item], called := s.called ++ [item] }
  | returns {item : Item} (calling : s.threads = [.calling item])
      : RunStep s { s with threads := [.locking], returned := s.returned ++ [item] }

/-- A thread that may look at the queue goes to sleep or takes the first item. -/
theorem runStep_awaitItem (ready : s.threads = [.locking] ∨ s.threads = [.awake])
    : RunStep s (s.awaitItem 0) := by
  have alone (thread : BGThread Item) : s.threads.set 0 thread = [thread] := by
    rcases ready with threads | threads
    · simp [threads]
    · simp [threads]
  unfold awaitItem
  split
  · next empty =>
      rw [setThread, alone]
      exact .sleeps ready empty
  · next item rest front =>
      rw [setThread, alone]
      exact .takes ready front

/-- Every step of a background thread is one of the four. -/
theorem Orderly.runStep (orderly : s.Orderly) {i : Nat} (ran : s.run i = some next)
    : RunStep s next := by
  unfold Background.run at ran
  split at ran
  · next found =>
      obtain ⟨rfl, threads⟩ := orderly.only found
      cases ran
      exact runStep_awaitItem (.inl threads)
  · next found =>
      obtain ⟨rfl, threads⟩ := orderly.only found
      cases ran
      exact runStep_awaitItem (.inr threads)
  · next item found =>
      obtain ⟨rfl, threads⟩ := orderly.only found
      cases ran
      simp only [setThread, threads, List.set_cons_zero]
      exact .calls threads
  · next item found =>
      obtain ⟨rfl, threads⟩ := orderly.only found
      cases ran
      simp only [setThread, threads, List.set_cons_zero]
      exact .returns threads
  · cases ran
  · cases ran

/-- A thread that may look at the queue has nothing in hand. -/
theorem Orderly.ready (orderly : s.Orderly)
    (ready : s.threads = [.locking] ∨ s.threads = [.awake])
    : s.startedBgthread = true ∧ s.scheduled = s.called ++ s.queue ∧ s.called = s.returned := by
  rcases ready with threads | threads
  · obtain ⟨started, order, calls, _⟩ := (orderly_iff threads).mp orderly
    exact ⟨started, by simpa [BGThread.held] using order, by simpa [BGThread.inCall] using calls⟩
  · obtain ⟨started, order, calls, _⟩ := (orderly_iff threads).mp orderly
    exact ⟨started, by simpa [BGThread.held] using order, by simpa [BGThread.inCall] using calls⟩

/-- Every step of the background thread keeps the order. -/
theorem Orderly.run (orderly : s.Orderly) (ran : RunStep s next) : next.Orderly := by
  cases ran with
  | sleeps ready empty =>
      obtain ⟨started, order, calls⟩ := orderly.ready ready
      refine (orderly_iff rfl).mpr ⟨started, ?_, ?_, fun _ => empty⟩
      · simpa [BGThread.held] using order
      · simpa [BGThread.inCall] using calls
  | takes ready front =>
      obtain ⟨started, order, calls⟩ := orderly.ready ready
      refine (orderly_iff rfl).mpr ⟨started, ?_, ?_, by simp⟩
      · simpa [BGThread.held, front] using order
      · simpa [BGThread.inCall] using calls
  | calls holding =>
      obtain ⟨started, order, calls, _⟩ := (orderly_iff holding).mp orderly
      refine (orderly_iff rfl).mpr ⟨started, ?_, ?_, by simp⟩
      · simpa [BGThread.held] using order
      · simpa [BGThread.inCall] using calls
  | returns calling =>
      obtain ⟨started, order, calls, _⟩ := (orderly_iff calling).mp orderly
      refine (orderly_iff rfl).mpr ⟨started, ?_, ?_, by simp⟩
      · simpa [BGThread.held] using order
      · simpa [BGThread.inCall] using calls

/-- What one scheduler choice can be. -/
theorem step_cases {action : BackgroundAction Item} (taken : step action s = some next)
    : s.aborted = false
      ∧ ((∃ item created woken, action = .schedule item created woken
          ∧ s.schedule item created woken = some next)
        ∨ (∃ i, action = .run i ∧ s.run i = some next)
        ∨ (∃ i, action = .wake i ∧ s.wake i = some next)) := by
  unfold step at taken
  split at taken
  · cases taken
  · next unaborted =>
      refine ⟨by simpa using unaborted, ?_⟩
      cases action with
      | schedule item created woken => exact .inl ⟨item, created, woken, rfl, taken⟩
      | run i => exact .inr (.inl ⟨i, rfl, taken⟩)
      | wake i => exact .inr (.inr ⟨i, rfl, taken⟩)

/-- Every scheduler choice keeps the order. -/
theorem Orderly.step (action : BackgroundAction Item) (before after : Background Item)
    (orderly : before.Orderly) (taken : Background.step action before = some after)
    : after.Orderly := by
  obtain ⟨running, ⟨item, created, woken, _, called⟩ | ⟨i, _, ran⟩ | ⟨i, _, awoken⟩⟩ :=
    step_cases taken
  · exact orderly.schedule (orderly.scheduleStep running called)
  · exact orderly.run (orderly.runStep ran)
  · exact (orderly.wake awoken).1

/-- Over every interleaving of `Schedule` calls and wake-ups: at most one background thread
is ever created, the functions are called in the order of the `Schedule` calls and each
item's once, and one call returns before the next begins.
-/
theorem called_in_schedule_order
    (reachable : Reachable Background.step (init Item) s)
    : s.threads.length ≤ 1
      ∧ s.scheduled = s.called ++ s.threads.flatMap BGThread.held ++ s.queue
      ∧ s.called = s.returned ++ s.threads.flatMap BGThread.inCall := by
  have orderly := reachable.invariant Orderly (init_orderly Item) Orderly.step
  exact ⟨orderly.single, orderly.order, orderly.calls⟩

/-- The thread sleeps, is woken by the second call, and is inside the second function when
the third call queues its item.
-/
theorem called_in_schedule_order_queued
    : execute Background.step
        [.schedule 7 true 0, .run 0, .run 0, .run 0, .run 0, .schedule 8 true 0, .run 0,
          .run 0, .schedule 9 true 0] (init Nat)
        = some ⟨true, [9], [.calling 8], false, [7, 8, 9], [7, 8], [7]⟩
      ∧ [BGThread.calling 8].length ≤ 1
      ∧ [7, 8, 9] = [7, 8] ++ [BGThread.calling 8].flatMap BGThread.held ++ [9]
      ∧ [7, 8] = [7] ++ [BGThread.calling 8].flatMap BGThread.inCall :=
  have executed : execute Background.step
      [.schedule 7 true 0, .run 0, .run 0, .run 0, .run 0, .schedule 8 true 0, .run 0,
        .run 0, .schedule 9 true 0] (init Nat)
      = some ⟨true, [9], [.calling 8], false, [7, 8, 9], [7, 8], [7]⟩ := by decide
  ⟨executed, called_in_schedule_order ⟨_, executed⟩⟩

-----------------------------------------------------------------------------------------
-- Progress
-----------------------------------------------------------------------------------------

/-- The steps a background thread can take on an empty queue until it sleeps. -/
def steps : BGThread Item → Nat
  | .asleep => 0
  | .locking | .awake => 1
  | .calling _ => 2
  | .holding _ => 3

/-- The steps left without another call of `Schedule` or wake-up: three for each queued item
and those of the threads.
-/
def potential (s : Background Item) : Nat :=
  3 * s.queue.length + (s.threads.map steps).sum

end Background

namespace BackgroundAction

/-- A step of the background thread. -/
def isRun : BackgroundAction Item → Nat
  | .run _ => 1
  | _ => 0

/-- What an action adds to the steps left: a new or woken thread and an item. -/
def allows : BackgroundAction Item → Nat
  | .schedule _ _ _ => 4
  | .run _ => 0
  | .wake _ => 1

end BackgroundAction

namespace Background

variable {s next : Background Item}

/-- Each step of the background thread uses up potential. -/
theorem RunStep.pays (ran : RunStep s next) : next.potential + 1 ≤ s.potential := by
  cases ran with
  | sleeps ready empty =>
      rcases ready with threads | threads
      · simp [potential, threads, steps]
      · simp [potential, threads, steps]
  | takes ready front =>
      rcases ready with threads | threads
      · simp only [potential, threads, front, steps, List.length_cons, List.map_cons,
          List.map_nil, List.sum_cons, List.sum_nil]
        omega
      · simp only [potential, threads, front, steps, List.length_cons, List.map_cons,
          List.map_nil, List.sum_cons, List.sum_nil]
        omega
  | calls holding => simp [potential, holding, steps]
  | returns calling => simp [potential, calling, steps]

/-- A call of `Schedule` adds at most four steps. -/
theorem ScheduleStep.pays {item : Item} (scheduled : ScheduleStep s item next)
    : next.potential ≤ s.potential + 4 := by
  cases scheduled with
  | aborts none => simp [potential]
  | creates none =>
      simp only [potential, push, none, steps, List.length_append, List.length_cons,
        List.length_nil, List.map_cons, List.map_nil, List.sum_cons, List.sum_nil]
      omega
  | wakes sleeping =>
      simp only [potential, push, sleeping, steps, List.length_append, List.length_cons,
        List.length_nil, List.map_cons, List.map_nil, List.sum_cons, List.sum_nil]
      omega
  | pushes only attentive =>
      simp only [potential, push, List.length_append, List.length_cons, List.length_nil]
      omega

/-- Every scheduler choice pays for itself. -/
theorem step_pays (action : BackgroundAction Item) (before after : Background Item)
    (orderly : before.Orderly) (taken : step action before = some after)
    : after.potential + action.isRun ≤ before.potential + action.allows := by
  obtain ⟨running, ⟨item, created, woken, rfl, called⟩ | ⟨i, rfl, ran⟩ | ⟨i, rfl, awoken⟩⟩ :=
    step_cases taken
  · have pays := (orderly.scheduleStep running called).pays
    simpa [BackgroundAction.isRun, BackgroundAction.allows] using pays
  · have pays := (orderly.runStep ran).pays
    simpa [BackgroundAction.isRun, BackgroundAction.allows] using pays
  · obtain ⟨_, sleeping, rfl⟩ := orderly.wake awoken
    simp [potential, sleeping, steps, BackgroundAction.isRun, BackgroundAction.allows]

/-- Unless the thread sleeps, it can take a step. -/
theorem run_isSome {thread : BGThread Item} (threads : s.threads = [thread])
    (attentive : thread ≠ .asleep)
    : (s.run 0).isSome = true := by
  unfold Background.run
  cases thread with
  | asleep => exact absurd rfl attentive
  | locking | awake | holding | calling => simp [threads]

/-- Until everything scheduled has returned, the background thread can take a step: it is
never left asleep on work.
-/
theorem Orderly.busy (orderly : s.Orderly) (running : s.aborted = false)
    (pending : s.returned ≠ s.scheduled)
    : (Background.step (.run 0) s).isSome = true := by
  simp only [Background.step, running, Bool.false_eq_true, if_false]
  have single := orderly.single
  match threads : s.threads with
  | [] =>
      have order := orderly.order
      have calls := orderly.calls
      refine absurd ?_ pending
      simp [order, calls, threads, orderly.unserved threads]
  | [thread] =>
      obtain ⟨_, order, calls, sleeping⟩ := (orderly_iff threads).mp orderly
      refine run_isSome threads ?_
      rintro rfl
      refine pending ?_
      simp [order, calls, BGThread.held, BGThread.inCall, sleeping rfl]
  | _ :: _ :: _ => simp [threads] at single

/-- Over every interleaving: unless the process has aborted, the background thread can take
a step while a scheduled item has not returned, and its steps are bounded by four for each
`Schedule` and one for each spurious wake-up. So it comes to rest only when everything
scheduled has been executed. Witness: three steps for each queued item are in reserve.
-/
theorem schedule_never_stalls {actions : List (BackgroundAction Item)}
    (executed : execute Background.step actions (init Item) = some s)
    : (s.aborted = false → s.returned ≠ s.scheduled
        → (Background.step (.run 0) s).isSome = true)
      ∧ (actions.map BackgroundAction.isRun).sum
        ≤ (actions.map BackgroundAction.allows).sum := by
  have orderly := Reachable.invariant Orderly (init_orderly Item) Orderly.step ⟨actions, executed⟩
  refine ⟨orderly.busy, ?_⟩
  have bound := execute_potential Orderly.step step_pays (init_orderly Item) executed
  simp only [potential, init, List.length_nil, List.map_nil, List.sum_nil] at bound
  omega

/-- A queued item and a thread that has just been woken. -/
theorem schedule_never_stalls_woken
    : execute Background.step [.schedule 7 true 0, .run 0, .run 0, .run 0, .run 0,
        .schedule 8 true 0] (init Nat)
        = some ⟨true, [8], [.awake], false, [7, 8], [7], [7]⟩
      ∧ (Background.step (.run 0)
          (⟨true, [8], [.awake], false, [7, 8], [7], [7]⟩ : Background Nat)).isSome = true
      ∧ 4 ≤ 8 :=
  have executed : execute Background.step [.schedule 7 true 0, .run 0, .run 0, .run 0, .run 0,
      .schedule 8 true 0] (init Nat)
      = some ⟨true, [8], [.awake], false, [7, 8], [7], [7]⟩ := by decide
  ⟨executed, (schedule_never_stalls executed).1 rfl (by decide),
    (schedule_never_stalls executed).2⟩

end Background

end PMKVLab.Env
