import PMKVLab.Bench.Threads
import Mathlib.Algebra.BigOperators.Group.List.Basic
import Mathlib.Algebra.Ring.Int.Defs
import Mathlib.Data.List.Pairwise

/-! The clock readings of `Stats`. A thread's `Start` is called twice, when the thread state is
constructed and after the barrier, and each call takes the start before it as the finish of
the last operation.
-/

namespace PMKVLab.Bench

-----------------------------------------------------------------------------------------
-- Stats with its clock
-----------------------------------------------------------------------------------------

/-- `Stats` with its clock readings, and the values given to its histogram since it was
cleared. The readings are exact integers.
-/
structure TimedStats where
  stats : Stats
  start : Int
  finish : Int
  lastOpFinish : Int
  latencies : List Int
deriving DecidableEq, Repr

namespace TimedStats

/-- `Start`: `last_op_finish_` gets the old `start_`, which is set after that. -/
def restart (timed : TimedStats) (now : Int) : TimedStats where
  stats := .start
  start := now
  finish := now
  lastOpFinish := timed.start
  latencies := []

/-- The constructor calls `Start` on members without values. -/
def make (indeterminate : TimedStats) (now : Int) : TimedStats := indeterminate.restart now

/-- `FinishedSingleOp`, which reads the clock for a histogram only. -/
def finishedSingleOp (histogram : Bool) (timed : TimedStats) (now : Int) : TimedStats :=
  let counted := { timed with stats := timed.stats.finishedSingleOp }
  if histogram then
    { counted with
      latencies := timed.latencies ++ [now - timed.lastOpFinish]
      lastOpFinish := now }
  else counted

def stop (timed : TimedStats) (now : Int) : TimedStats := { timed with finish := now }

end TimedStats

/-- The calls that a benchmark method makes on the statistics of its thread. -/
inductive StatsCall
  | finishedSingleOp (now : Int)
  | addBytes (n : Nat)
  | addMessage (msg : String)
deriving DecidableEq, Repr

namespace StatsCall

def apply (histogram : Bool) (timed : TimedStats) : StatsCall → TimedStats
  | .finishedSingleOp now => timed.finishedSingleOp histogram now
  | .addBytes n => { timed with stats := timed.stats.addBytes n }
  | .addMessage msg => { timed with stats := timed.stats.addMessage msg }

def reading? : StatsCall → Option Int
  | .finishedSingleOp now => some now
  | _ => none

end StatsCall

/-- The clock readings of a method's calls. -/
def readings (calls : List StatsCall) : List Int := calls.filterMap StatsCall.reading?

/-- The statistics of a thread from `new ThreadState` to `stats.Stop()` in `ThreadBody`. -/
def timedThread (histogram : Bool) (indeterminate : TimedStats) (created started : Int)
    (calls : List StatsCall) (stopped : Int)
    : TimedStats :=
  (calls.foldl (StatsCall.apply histogram)
    ((TimedStats.make indeterminate created).restart started)).stop stopped

-----------------------------------------------------------------------------------------
-- Latencies
-----------------------------------------------------------------------------------------

/-- The times between a reading and the next. -/
def differences (earlier : Int) : List Int → List Int
  | [] => []
  | now :: later => (now - earlier) :: differences now later

/-- The differences telescope. -/
theorem sum_differences (earlier : Int) (times : List Int)
    : (differences earlier times).sum = times.getLastD earlier - earlier := by
  induction times generalizing earlier with
  | nil => simp [differences]
  | cons now later ih =>
      rw [differences, List.sum_cons, ih, List.getLastD_cons]
      omega

theorem differences_nonneg {earlier : Int} {times : List Int}
    (ordered : (earlier :: times).Pairwise (· ≤ ·))
    : ∀ latency ∈ differences earlier times, 0 ≤ latency := by
  induction times generalizing earlier with
  | nil => exact fun _ member => absurd member List.not_mem_nil
  | cons now later ih =>
      obtain ⟨first, rest⟩ := List.pairwise_cons.mp ordered
      intro latency member
      rcases List.mem_cons.mp member with rfl | member
      · exact Int.sub_nonneg_of_le (first now List.mem_cons_self)
      · exact ih rest latency member

/-- What the calls of a method add to the histogram, by induction on them. -/
theorem foldl_latencies (timed : TimedStats) (calls : List StatsCall)
    : (calls.foldl (StatsCall.apply true) timed).latencies
      = timed.latencies ++ differences timed.lastOpFinish (readings calls) := by
  induction calls generalizing timed with
  | nil => simp [readings, differences]
  | cons call rest ih =>
      rw [List.foldl_cons, ih]
      cases call with
      | finishedSingleOp now =>
          have read : readings (.finishedSingleOp now :: rest) = now :: readings rest := rfl
          rw [read, differences, List.append_cons]
          rfl
      | addBytes n => rfl
      | addMessage msg => rfl

/-- The calls of a method leave the start alone. -/
theorem foldl_start (histogram : Bool) (timed : TimedStats) (calls : List StatsCall)
    : (calls.foldl (StatsCall.apply histogram) timed).start = timed.start := by
  induction calls generalizing timed with
  | nil => rfl
  | cons call rest ih =>
      rw [List.foldl_cons, ih]
      cases call with
      | finishedSingleOp now => cases histogram <;> rfl
      | addBytes n => rfl
      | addMessage msg => rfl

/-- The recorded latencies are not negative and lie inside the measured interval. -/
structure TimedStats.Inside (timed : TimedStats) : Prop where
  nonneg : ∀ latency ∈ timed.latencies, 0 ≤ latency
  within : timed.latencies.sum ≤ timed.finish - timed.start

instance (timed : TimedStats) : Decidable timed.Inside :=
  decidable_of_iff
    ((∀ latency ∈ timed.latencies, 0 ≤ latency)
      ∧ timed.latencies.sum ≤ timed.finish - timed.start)
    ⟨fun inside => ⟨inside.1, inside.2⟩, fun inside => ⟨inside.nonneg, inside.within⟩⟩

/-- The latencies are never negative, and they lie inside the measured interval exactly when
there was no operation or the thread was stopped, after its last operation, at least as long
as it had waited for its start: the first latency is counted from the thread's creation.
-/
theorem timedThread_inside_iff (indeterminate : TimedStats) {created started stopped : Int}
    {calls : List StatsCall}
    (ordered : (created :: started :: (readings calls ++ [stopped])).Pairwise (· ≤ ·))
    : (timedThread true indeterminate created started calls stopped).Inside
      ↔ ∀ last, (readings calls).getLast? = some last
        → started - created ≤ stopped - last := by
  have latencies : (timedThread true indeterminate created started calls stopped).latencies
      = differences created (readings calls) :=
    foldl_latencies _ calls
  have interval : (timedThread true indeterminate created started calls stopped).start
      = started :=
    foldl_start true _ calls
  obtain ⟨fromCreation, fromStart⟩ := List.pairwise_cons.mp ordered
  obtain ⟨afterStart, rest⟩ := List.pairwise_cons.mp fromStart
  have early : started ≤ stopped := afterStart stopped (by simp)
  have nonneg : ∀ latency ∈ differences created (readings calls), 0 ≤ latency :=
    differences_nonneg
      (ordered.sublist (.cons_cons _ (.cons _ (List.sublist_append_left _ _))))
  have sum := sum_differences created (readings calls)
  constructor
  · intro inside last isLast
    have within := inside.within
    rw [latencies, sum, interval, List.getLastD_eq_getLast?, isLast] at within
    change last - created ≤ stopped - started at within
    omega
  · intro late
    refine ⟨?_, ?_⟩
    · rw [latencies]
      exact nonneg
    · rw [latencies, sum, interval, List.getLastD_eq_getLast?]
      change _ ≤ stopped - started
      cases isLast : (readings calls).getLast? with
      | none =>
          rw [Option.getD_none]
          omega
      | some last =>
          have waited := late last isLast
          rw [Option.getD_some]
          omega

/-- A thread that starts as soon as it is created. -/
theorem timedThread_inside_at_once
    : (timedThread true ⟨.start, 7, 7, 7, []⟩ 0 0
        [.finishedSingleOp 5, .addBytes 116, .finishedSingleOp 9] 10).Inside := by
  refine (timedThread_inside_iff _ (by decide)).mpr fun last isLast => ?_
  cases isLast
  decide

/-- A thread that waits a hundred microseconds for its start: its one operation takes five,
but the histogram has it with a hundred and five in an interval of six.
-/
theorem timedThread_late_start
    : (timedThread true ⟨.start, 7, 7, 7, []⟩ 0 100 [.finishedSingleOp 105] 106).latencies
        = [105]
      ∧ ¬ (timedThread true ⟨.start, 7, 7, 7, []⟩ 0 100 [.finishedSingleOp 105] 106).Inside := by
  decide

end PMKVLab.Bench
