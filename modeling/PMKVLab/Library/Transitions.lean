import Mathlib.Algebra.Ring.Nat
import Mathlib.Data.List.Basic

/-! Systems whose actions may be disabled: schedules, reachable states, the invariant rule,
and termination by a ranking function that some actions may raise.
-/

namespace PMKVLab.Library

variable {Action State : Type}

/-- Take the scheduled actions one after another; `none` once one of them is disabled. -/
def execute (step : Action → State → Option State) : List Action → State → Option State
  | [], state => some state
  | action :: rest, state => (step action state).bind (execute step rest)

/-- Some schedule leads from `start` to `state`. -/
def Reachable (step : Action → State → Option State) (start state : State) : Prop :=
  ∃ schedule, execute step schedule start = some state

/-- The start is reachable by the empty schedule. -/
theorem Reachable.refl (step : Action → State → Option State) (start : State)
    : Reachable step start start :=
  ⟨[], rfl⟩

/-- One more enabled action, by induction on the schedule before it. -/
theorem Reachable.next {step : Action → State → Option State} {start state after : State}
    (reachable : Reachable step start state) {action : Action}
    (taken : step action state = some after)
    : Reachable step start after := by
  obtain ⟨schedule, executed⟩ := reachable
  refine ⟨schedule ++ [action], ?_⟩
  induction schedule generalizing start with
  | nil =>
      cases executed
      simp [execute, taken]
  | cons first rest ih =>
      obtain ⟨middle, begun, remaining⟩ := Option.bind_eq_some_iff.mp executed
      exact Option.bind_eq_some_iff.mpr ⟨middle, begun, ih remaining⟩

/-- What holds at the start and is kept by every enabled action holds in every reachable
state, by induction on the schedule.
-/
theorem Reachable.invariant {step : Action → State → Option State} {start state : State}
    (invariant : State → Prop) (initial : invariant start)
    (preserved : ∀ action before after, invariant before → step action before = some after
      → invariant after)
    (reachable : Reachable step start state)
    : invariant state := by
  obtain ⟨schedule, executed⟩ := reachable
  induction schedule generalizing start with
  | nil =>
      cases executed
      exact initial
  | cons action rest ih =>
      obtain ⟨middle, taken, remaining⟩ := Option.bind_eq_some_iff.mp executed
      exact ih (preserved action start middle initial taken) remaining

/-- When every action pays its cost out of the potential or of what it brings in, a run
pays its costs out of the potential of its start and of what all its actions bring in, by
induction on the schedule.
-/
theorem execute_potential {step : Action → State → Option State} {invariant : State → Prop}
    {potential : State → Nat} {cost gain : Action → Nat}
    (preserved : ∀ action before after, invariant before → step action before = some after
      → invariant after)
    (pays : ∀ action before after, invariant before → step action before = some after
      → potential after + cost action ≤ potential before + gain action)
    {schedule : List Action} {start state : State} (holds : invariant start)
    (executed : execute step schedule start = some state)
    : potential state + (schedule.map cost).sum
      ≤ potential start + (schedule.map gain).sum := by
  induction schedule generalizing start with
  | nil =>
      cases executed
      simp
  | cons action rest ih =>
      obtain ⟨middle, taken, remaining⟩ := Option.bind_eq_some_iff.mp executed
      have later := ih (preserved action start middle holds taken) remaining
      have first := pays action start middle holds taken
      simp only [List.map_cons, List.sum_cons]
      omega

-----------------------------------------------------------------------------------------
-- Ranking functions
-----------------------------------------------------------------------------------------

/-- A rank that falls with every productive action and rises by at most one with any other,
in states that satisfy an invariant.
-/
structure Ranking (step : Action → State → Option State) (productive : Action → Bool)
    (invariant : State → Prop) (rank : State → Nat) : Prop where
  preserved : ∀ action before after, invariant before → step action before = some after
    → invariant after
  falls : ∀ action before after, invariant before → step action before = some after
    → rank after + (if productive action then 1 else 0)
      ≤ rank before + (if productive action then 0 else 1)

section Ranking

variable {step : Action → State → Option State} {productive : Action → Bool}
  {invariant : State → Prop} {rank : State → Nat}

/-- A run takes no more productive actions than the rank of its start, counting each other
action against it, by induction on the schedule.
-/
theorem Ranking.bounds (ranking : Ranking step productive invariant rank)
    {schedule : List Action} {start state : State} (holds : invariant start)
    (executed : execute step schedule start = some state)
    : schedule.countP productive
      ≤ rank start + schedule.countP (fun action => !productive action) := by
  suffices stronger : rank state + schedule.countP productive
      ≤ rank start + schedule.countP (fun action => !productive action) by omega
  induction schedule generalizing start with
  | nil =>
      cases executed
      simp
  | cons action rest ih =>
      obtain ⟨middle, taken, remaining⟩ := Option.bind_eq_some_iff.mp executed
      have later := ih (ranking.preserved action start middle holds taken) remaining
      have first := ranking.falls action start middle holds taken
      cases kind : productive action with
      | true =>
          simp only [kind, if_true, List.countP_cons, Bool.not_true, Bool.false_eq_true,
            if_false] at first ⊢
          omega
      | false =>
          simp only [kind, if_true, List.countP_cons, Bool.not_false, Bool.false_eq_true,
            if_false] at first ⊢
          omega

/-- When a productive action is possible until the goal, every state can reach the goal, by
induction on its rank.
-/
theorem Ranking.reaches (ranking : Ranking step productive invariant rank)
    {goal : State → Prop}
    (progress : ∀ state, invariant state → goal state
      ∨ ∃ action, productive action = true ∧ (step action state).isSome = true)
    {start : State} (holds : invariant start)
    : ∃ state, Reachable step start state ∧ goal state := by
  induction bound : rank start using Nat.strongRecOn generalizing start with
  | ind size ih =>
      rcases progress start holds with done | ⟨action, kind, enabled⟩
      · exact ⟨start, .refl step start, done⟩
      · obtain ⟨next, taken⟩ := Option.isSome_iff_exists.mp enabled
        have falls := ranking.falls action start next holds taken
        simp only [kind, if_true] at falls
        obtain ⟨state, ⟨schedule, executed⟩, done⟩ :=
          ih (rank next) (by omega) (ranking.preserved action start next holds taken) rfl
        refine ⟨state, ⟨action :: schedule, ?_⟩, done⟩
        simp [execute, taken, executed]

end Ranking

end PMKVLab.Library
