import PMKVLab.Bench.Threads

/-! The progress lines of `Stats::FinishedSingleOp`. They come at intervals that grow with the
number of operations, and the `int` that holds the next one overflows before the counter of
the operations does.
-/

namespace PMKVLab.Bench

/-- `INT_MAX`. -/
def maxInt : Nat := 2147483647

/-- How far `next_report_` moves on. -/
def reportInterval (nextReport : Nat) : Nat :=
  if nextReport < 1000 then 100
  else if nextReport < 5000 then 500
  else if nextReport < 10000 then 1000
  else if nextReport < 50000 then 5000
  else if nextReport < 100000 then 10000
  else if nextReport < 500000 then 50000
  else 100000

/-- The two counters of `Stats`, and the operations counted in its progress lines. -/
structure Progress where
  stats : Stats
  nextReport : Nat
  printed : List Nat
deriving DecidableEq, Repr

namespace Progress

/-- `Start`. -/
def start : Progress := ⟨.start, 100, []⟩

/-- `FinishedSingleOp`; an addition that overflows has no result. -/
def finishedSingleOp (progress : Progress) : Option Progress :=
  let stats := progress.stats.finishedSingleOp
  if maxInt < stats.done then none
  else if stats.done ≥ progress.nextReport then
    let nextReport := progress.nextReport + reportInterval progress.nextReport
    if maxInt < nextReport then none
    else some ⟨stats, nextReport, progress.printed ++ [stats.done]⟩
  else some { progress with stats := stats }

/-- The statistics after a number of operations. -/
def after : Nat → Option Progress
  | 0 => some start
  | n + 1 => (after n).bind finishedSingleOp

end Progress

-----------------------------------------------------------------------------------------
-- Where the lines come
-----------------------------------------------------------------------------------------

/-- The positive multiples of the interval at their own size. -/
def ReportPoint (k : Nat) : Prop := 0 < k ∧ k % reportInterval k = 0

instance : DecidablePred ReportPoint := fun k =>
  inferInstanceAs (Decidable (0 < k ∧ k % reportInterval k = 0))

/-- The report point at which the next one is out of range. -/
def lastReportPoint : Nat := 2147400000

/-- The intervals by size. -/
theorem reportInterval_cases (k : Nat)
    : (k < 1000 ∧ reportInterval k = 100)
      ∨ (1000 ≤ k ∧ k < 5000 ∧ reportInterval k = 500)
      ∨ (5000 ≤ k ∧ k < 10000 ∧ reportInterval k = 1000)
      ∨ (10000 ≤ k ∧ k < 50000 ∧ reportInterval k = 5000)
      ∨ (50000 ≤ k ∧ k < 100000 ∧ reportInterval k = 10000)
      ∨ (100000 ≤ k ∧ k < 500000 ∧ reportInterval k = 50000)
      ∨ (500000 ≤ k ∧ reportInterval k = 100000) := by
  unfold reportInterval
  split_ifs <;> omega

/-- One interval after a report point comes another one, since the limits between the
intervals are multiples of both, and there is none between the two.
-/
theorem ReportPoint.next_iff {k later : Nat} (point : ReportPoint k) (above : k < later)
    (reach : later ≤ k + reportInterval k)
    : ReportPoint later ↔ later = k + reportInterval k := by
  obtain ⟨-, multiple⟩ := point
  unfold ReportPoint
  rcases reportInterval_cases k with ⟨_, size⟩ | ⟨_, _, size⟩ | ⟨_, _, size⟩ | ⟨_, _, size⟩
    | ⟨_, _, size⟩ | ⟨_, _, size⟩ | ⟨_, size⟩
  all_goals
    rw [size] at multiple reach ⊢
    rcases reportInterval_cases later with ⟨_, wide⟩ | ⟨_, _, wide⟩ | ⟨_, _, wide⟩
      | ⟨_, _, wide⟩ | ⟨_, _, wide⟩ | ⟨_, _, wide⟩ | ⟨_, wide⟩
  all_goals
    rw [wide]
    omega

theorem reportInterval_pos (k : Nat) : 0 < reportInterval k := by
  rcases reportInterval_cases k with h | h | h | h | h | h | h <;> omega

-----------------------------------------------------------------------------------------
-- Runs
-----------------------------------------------------------------------------------------

/-- After `n` operations the next line is due at the first report point above `n`. -/
structure Progress.Due (n : Nat) (progress : Progress) : Prop where
  done : progress.stats.done = n
  above : n < progress.nextReport
  point : ReportPoint progress.nextReport
  first : ∀ k, n < k → k < progress.nextReport → ¬ ReportPoint k
  inRange : progress.nextReport ≤ lastReportPoint
  printed : progress.printed = (List.range (n + 1)).filter (fun k => ReportPoint k)

theorem Progress.Due.start : Progress.start.Due 0 where
  done := rfl
  above := by decide
  point := by decide
  first k above below := by
    rintro ⟨-, multiple⟩
    have below : k < 100 := below
    rw [reportInterval, if_pos (by omega)] at multiple
    omega
  inRange := by decide
  printed := rfl

/-- The report points up to the next number. -/
theorem filter_range_succ (n : Nat)
    : (List.range (n + 1 + 1)).filter (fun k => ReportPoint k)
      = (List.range (n + 1)).filter (fun k => ReportPoint k)
        ++ if ReportPoint (n + 1) then [n + 1] else [] := by
  rw [List.range_succ, List.filter_append]
  congr 1
  by_cases point : ReportPoint (n + 1)
  · simp [point]
  · simp [point]

/-- One more operation, before the last report point. -/
theorem Progress.Due.step {n : Nat} {progress : Progress} (due : progress.Due n)
    (early : n + 1 < lastReportPoint)
    : ∃ next, progress.finishedSingleOp = some next ∧ next.Due (n + 1) := by
  obtain ⟨done, above, point, first, inRange, printed⟩ := due
  have counted : progress.stats.finishedSingleOp.done = n + 1 := congrArg (· + 1) done
  have fits : lastReportPoint ≤ maxInt := by decide
  simp only [finishedSingleOp, counted, if_neg (show ¬ maxInt < n + 1 by omega)]
  by_cases reports : n + 1 ≥ progress.nextReport
  · have here : progress.nextReport = n + 1 := by omega
    rw [here] at point ⊢
    have later := reportInterval_pos (n + 1)
    have inside : n + 1 + reportInterval (n + 1) ≤ lastReportPoint := by
      -- otherwise the last point would lie between two neighbours
      by_contra beyond
      have last := (point.next_iff early (by omega)).mp (by decide)
      omega
    rw [if_pos (Nat.le_refl _), if_neg (show ¬ maxInt < n + 1 + reportInterval (n + 1) by omega)]
    refine ⟨_, rfl, counted, Nat.lt_add_of_pos_right later, ?_, ?_, inside, ?_⟩
    · exact (point.next_iff (Nat.lt_add_of_pos_right later) (Nat.le_refl _)).mpr rfl
    · intro k beyond under also
      exact Nat.ne_of_lt under ((point.next_iff beyond (Nat.le_of_lt under)).mp also)
    · rw [filter_range_succ, if_pos point, printed]
  · have silent : ¬ ReportPoint (n + 1) := first (n + 1) (by omega) (by omega)
    rw [if_neg reports]
    refine ⟨_, rfl, counted, Nat.lt_of_not_ge reports, point, fun k beyond => first k (by omega),
      inRange, ?_⟩
    rw [filter_range_succ, if_neg silent, List.append_nil]
    exact printed

/-- At the last report point the addition to `next_report_` overflows. -/
theorem Progress.Due.overflow {progress : Progress} (due : progress.Due (lastReportPoint - 1))
    : progress.finishedSingleOp = none := by
  have counted : progress.stats.finishedSingleOp.done = lastReportPoint :=
    congrArg (· + 1) due.done
  have reached : progress.nextReport = lastReportPoint := by
    have above := due.above
    have inRange := due.inRange
    omega
  have fits : ¬ maxInt < lastReportPoint := by decide
  have beyond : maxInt < lastReportPoint + reportInterval lastReportPoint := by decide
  simp only [finishedSingleOp, counted, reached, if_neg fits, if_pos beyond, ge_iff_le,
    Nat.le_refl, if_true]

/-- The statistics of every run that does not reach the last report point, by induction on its
operations.
-/
theorem Progress.after_due {n : Nat} (early : n < lastReportPoint)
    : ∃ progress, after n = some progress ∧ progress.Due n := by
  induction n with
  | zero => exact ⟨start, rfl, .start⟩
  | succ n ih =>
      obtain ⟨progress, ran, due⟩ := ih (by omega)
      obtain ⟨next, stepped, dueNext⟩ := due.step early
      refine ⟨next, ?_, dueNext⟩
      rw [after, ran]
      exact stepped

/-- A thread's progress lines count exactly the report points among its operations: the
hundreds up to 1000, the five hundreds up to 5000, and so on, and from 500000 on the multiples
of 100000. A run overflows an `int` exactly from 2147400000 operations on, which is where
`next_report_` leaves the range, while `done_` could go on.
-/
theorem progress_lines (n : Nat)
    : (Progress.after n).map (fun progress => (progress.stats.done, progress.printed))
      = if n < lastReportPoint
        then some (n, (List.range (n + 1)).filter (fun k => ReportPoint k))
        else none := by
  rcases Nat.lt_or_ge n lastReportPoint with early | late
  · obtain ⟨progress, ran, due⟩ := Progress.after_due early
    rw [ran, if_pos early, Option.map_some, due.done, due.printed]
  · have stopped : Progress.after n = none := by
      induction n, late using Nat.le_induction with
      | base =>
          obtain ⟨progress, ran, due⟩ :=
            Progress.after_due (show lastReportPoint - 1 < lastReportPoint by decide)
          have unrolled : Progress.after lastReportPoint
              = (Progress.after (lastReportPoint - 1)).bind Progress.finishedSingleOp := rfl
          rw [unrolled, ran]
          exact due.overflow
      | succ n _ ih => rw [Progress.after, ih, Option.bind_none]
    rw [stopped, if_neg (Nat.not_lt.mpr late), Option.map_none]

example : (List.range 2501).filter (fun k => ReportPoint k)
    = [100, 200, 300, 400, 500, 600, 700, 800, 900, 1000, 1500, 2000, 2500] := by
  decide +kernel

end PMKVLab.Bench
