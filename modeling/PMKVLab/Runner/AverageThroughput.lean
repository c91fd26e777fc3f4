import PMKVLab.Bench.Summarize
import PMKVLab.Library.Doubles
import PMKVLab.Runner.Wire

/-! The figure of merit of this lab, from the lines that the benchmark prints to the value
that the runner reads in `perf.csv`.
-/

namespace PMKVLab.Runner

open PMKVLab.Library
open PMKVLab.Bench (GradedRun RateReport TotalsOf benchmarks meanTotal printedLines)

/-- `float` of a decimal numeral is the double closest to its number, and different doubles
are shown differently.
-/
structure ReadsDecimals (interpreter : Interpreter) where
  shown : Option Nat → String
  injective : Function.Injective shown
  reads (n : Nat) : interpreter.toFloat (toString n) = some (shown (nearestDouble n))

/-- What the runner reads from the file that `summarize.py` writes. -/
def averageRead (interpreter : Interpreter) (files : String → Option (List Char))
    : Except Raised Py :=
  extractFromFirstCsvLineByField interpreter (.str (Bench.perfCsv files))
    (.str "AverageThroughput")

-----------------------------------------------------------------------------------------
-- The file is read back
-----------------------------------------------------------------------------------------

/-- A text in the first row that `float` accepts. -/
theorem extract_of_row {interpreter : Interpreter} {text cell number : String} {field : Py}
    {row : Csv.Row} {rest : List Csv.Row} (rows : Csv.dictRows text = .ok (row :: rest))
    (found : row.getItem field = .ok (.str cell)) (read : interpreter.toFloat cell = some number)
    : extractFromFirstCsvLineByField interpreter (.str text) field = .ok (.float number) := by
  have float : interpreter.float (.str cell) = .ok (.float number) := by
    rw [Interpreter.float, read]
  simp only [extractFromFirstCsvLineByField, Py.text, Except.bind, bind, rows, found, float]

/-- The text of a number is a field. -/
theorem plain_toString {n : Nat} (short : n < 10 ^ Csv.fieldLimit)
    : Csv.Plain (toString n).toList := by
  refine ⟨(Bench.toString_solid n).1, ?_, fun character member => ?_⟩
  · rw [Nat.toString_eq_ofList_toDigits, String.toList_ofList]
    exact (Nat.length_toDigits_le_iff (by decide) (by decide)).mpr short
  · have digit := isDigit_of_mem_toString member
    refine ⟨?_, ?_, ?_, ?_⟩ <;> rintro rfl <;> cases digit

/-- The column names are fields. -/
theorem plain_header
    : ∀ field ∈ "AverageThroughput" :: benchmarks.map GradedRun.fileName,
      Csv.Plain field.toList := by
  have plain : ∀ field ∈ "AverageThroughput" :: benchmarks.map GradedRun.fileName,
      field.toList ≠ [] ∧ field.toList.length ≤ Csv.fieldLimit
        ∧ field.toList.all fun character =>
          character ≠ '"' ∧ character ≠ ',' ∧ character ≠ '\n' ∧ character ≠ '\r' := by
    decide +kernel
  intro field member
  obtain ⟨nonempty, short, unquoted⟩ := plain field member
  simp only [List.all_eq_true, decide_eq_true_eq] at unquoted
  exact ⟨nonempty, short, unquoted⟩

/-- The runner reads the double closest to the mean. -/
theorem averageRead_of_counted {interpreter : Interpreter} (decimals : ReadsDecimals interpreter)
    {files : String → Option (List Char)} {totals : GradedRun → Nat}
    (counted : ∀ run ∈ benchmarks, run.tput files = totals run)
    (short : (benchmarks.map totals).sum < 10 ^ Csv.fieldLimit)
    : averageRead interpreter files
      = .ok (.float (decimals.shown (nearestDouble (meanTotal totals)))) := by
  have plainRow : ∀ field ∈ toString (meanTotal totals) :: (benchmarks.map totals).map toString,
      Csv.Plain field.toList := by
    rw [List.forall_mem_cons, List.forall_mem_map]
    constructor
    · exact plain_toString (Nat.lt_of_le_of_lt (Nat.div_le_self _ _) short)
    · exact fun total among => plain_toString (Nat.lt_of_le_of_lt (List.le_sum_of_mem among) short)
  have distinct : "AverageThroughput" ∉ benchmarks.map GradedRun.fileName := by decide +kernel
  have complete : (benchmarks.map GradedRun.fileName).length
      ≤ ((benchmarks.map totals).map toString).length := by
    simp only [List.length_map, Nat.le_refl]
  have rows := Csv.dictRows_join (List.cons_ne_nil _ _) (List.cons_ne_nil _ _) plain_header
    plainRow
  rw [← Bench.perfCsvRows_of_counted counted] at rows
  exact extract_of_row rows (Csv.rowOf_first distinct complete) (decimals.reads _)

/-- The mean of the totals is a double: four threads that finish `INT_MAX` operations in a
microsecond stay below `2 ^ 53`.
-/
theorem meanTotal_isDouble {files : String → Option (List Char)} {totals : GradedRun → Nat}
    (totalled : TotalsOf files totals)
    : (benchmarks.map totals).sum / 14 ≤ 2 ^ 53 := by
  have sum : (benchmarks.map totals).sum
      ≤ (benchmarks.map totals).length • (4 * Bench.maxRate) :=
    List.sum_le_card_nsmul _ _ (List.forall_mem_map.mpr fun _ member => totalled.le files member)
  have fourteen : (benchmarks.map totals).length = 14 := rfl
  rw [fourteen, smul_eq_mul, Bench.maxRate] at sum
  omega

-----------------------------------------------------------------------------------------
-- From reports to the figure of merit
-----------------------------------------------------------------------------------------

/-- For every run that ends in four reports, with any lines before and any text behind the
rates, the total is the sum of the rates, and a run that does not count has the total 0. The
runner reads exactly the floor of their mean.
-/
theorem averageRead_of_reports {interpreter : Interpreter}
    (decimals : ReadsDecimals interpreter) (files : String → Option (List Char))
    (totals : GradedRun → Nat) (totalled : TotalsOf files totals)
    : (∀ run ∈ benchmarks, run.tput files = totals run)
      ∧ ∀ value, averageRead interpreter files = .ok (.float (decimals.shown (some value)))
        ↔ value = (benchmarks.map totals).sum / 14 := by
  have counted : ∀ run ∈ benchmarks, run.tput files = totals run :=
    fun _ member => totalled.tput files member
  have small := meanTotal_isDouble totalled
  have few : (benchmarks.map totals).sum < 10 ^ 20 := by omega
  have short : 10 ^ 20 ≤ 10 ^ Csv.fieldLimit := Nat.pow_le_pow_right (by decide) (by decide)
  have whole : nearestDouble (meanTotal totals) = some ((benchmarks.map totals).sum / 14) :=
    nearestDouble_of_le small
  have read := averageRead_of_counted decimals counted (Nat.lt_of_lt_of_le few short)
  rw [whole] at read
  refine ⟨counted, fun value => ⟨fun shown => ?_, fun same => same ▸ read⟩⟩
  have equal := Py.float.inj (Except.ok.inj (shown.symm.trans read))
  exact Option.some.inj (decimals.injective equal)

/-- A double that is a natural number, written out. -/
def showDouble : Option Nat → String
  | some value => toString value ++ ".0"
  | none => "inf"

/-- The interpreter that reads decimal numerals. -/
def decimalInterpreter : Interpreter :=
  { plainInterpreter with
    toFloat text := (readDecimal text.toList).map fun number => showDouble (nearestDouble number) }

theorem showDouble_injective : Function.Injective showDouble := by
  have finite (value : Nat) : showDouble (some value) ≠ showDouble none := by
    intro same
    have last := congrArg (fun text => text.toList.getLast?) same
    simp [showDouble] at last
  intro left right same
  cases left with
  | none =>
      cases right with
      | none => rfl
      | some value => exact absurd same.symm (finite value)
  | some value =>
      cases right with
      | none => exact absurd same (finite value)
      | some other => exact congrArg some (toString_injective (by simpa [showDouble] using same))

def decimalReads : ReadsDecimals decimalInterpreter where
  shown := showDouble
  injective := showDouble_injective
  reads n := by simp only [decimalInterpreter, readDecimal_toString, Option.map_some]

/-- A report with a rate of bytes behind it. -/
def sampleReport (rate : Nat) (bounded : rate ≤ Bench.maxRate) : RateReport where
  micros := "15.140".toList
  rate := rate
  extra := "  65.5 MB/s".toList
  rateBounded := bounded
  microsNonempty := by decide
  microsSolid := Bench.solid_of_all rfl
  extraWhole := by decide

def sampleReports : List RateReport :=
  [sampleReport 100 (by decide), sampleReport 200 (by decide), sampleReport 300 (by decide),
    sampleReport 400 (by decide)]

/-- Only the first benchmark has left a file. -/
def onlyFillseq (fileName : String) : Option (List Char) :=
  if fileName = "fillseq_100.txt" then
    some (printedLines (["Entries:    500000".toList]
      ++ sampleReports.map (RateReport.line "fillseq")))
  else none

def onlyFillseqTotals (run : GradedRun) : Nat :=
  if run.fileName = "fillseq_100.txt" then 1000 else 0

theorem totalsOf_onlyFillseq : TotalsOf onlyFillseq onlyFillseqTotals := by
  have named : ∀ run ∈ benchmarks, run.fileName = "fillseq_100.txt" → run.name = .fillseq := by
    decide +kernel
  intro run member
  by_cases same : run.fileName = "fillseq_100.txt"
  · refine .inl ⟨_, if_pos same, ["Entries:    500000".toList], sampleReports, by decide, rfl,
      ?_, if_pos same⟩
    rw [named run member same]
    rfl
  · exact .inr ⟨.inl (if_neg same), if_neg same⟩

/-- One run with a total of 1000. -/
theorem averageRead_thousand
    : averageRead decimalInterpreter onlyFillseq = .ok (.float "71.0") := by
  have mean : 71 = (benchmarks.map onlyFillseqTotals).sum / 14 := by decide +kernel
  exact ((averageRead_of_reports decimalReads onlyFillseq onlyFillseqTotals
    totalsOf_onlyFillseq).2 71).mpr mean

end PMKVLab.Runner
