import PMKVLab.Bench.Run
import PMKVLab.Library.Csv
import PMKVLab.Library.Decimals
import PMKVLab.Library.Words

/-! The lines that `Stats::Report` prints, and `summarize.py`, which adds up the rates of the
last four lines of each benchmark run and writes `perf.csv`.
-/

namespace PMKVLab.Bench

open PMKVLab.Library

-----------------------------------------------------------------------------------------
-- Stats::Report
-----------------------------------------------------------------------------------------

/-- The name of a benchmark in `FLAGS_benchmarks`. -/
def BenchmarkName.text : BenchmarkName → String
  | .fillseq => "fillseq"
  | .fillrandom => "fillrandom"
  | .overwrite => "overwrite"
  | .readseq => "readseq"
  | .readrandom => "readrandom"
  | .readmissing => "readmissing"
  | .deleteseq => "deleteseq"
  | .deleterandom => "deleterandom"

/-- What a word of a Python 2 string ends at. -/
def isSpace (character : Char) : Bool :=
  character ∈ [' ', '\t', '\n', '\x0b', '\x0c', '\r']

/-- The largest rate that `Report` can print as a number: `done_` is an `int`, and `seconds_`
a difference of two readings of a clock that counts microseconds.
-/
def maxRate : Nat := 2147483647 * 10 ^ 6

/-- The values that one call of `Report` prints: the text of the microseconds, which has no
blanks before it is padded, a rate that is a natural number, and a text within the line.
-/
structure RateReport where
  micros : List Char
  rate : Nat
  extra : List Char
  rateBounded : rate ≤ maxRate
  microsNonempty : micros ≠ []
  microsSolid : ∀ character ∈ micros, isSpace character = false
  extraWhole : '\n' ∉ extra

/-- `"%-12s : %11.3f micros/op %.0f ops/sec;%s%s"`. -/
def RateReport.line (name : String) (report : RateReport) : List Char :=
  name.toList ++ List.replicate (12 - name.length) ' '
  ++ " : ".toList ++ List.replicate (11 - report.micros.length) ' ' ++ report.micros
  ++ " micros/op ".toList ++ (toString report.rate).toList
  ++ " ops/sec;".toList ++ (if report.extra = [] then [] else [' ']) ++ report.extra

/-- A text that consists of lines. -/
def printedLines (texts : List (List Char)) : List Char :=
  texts.flatMap (· ++ ['\n'])

-----------------------------------------------------------------------------------------
-- summarize.py
-----------------------------------------------------------------------------------------

/-- An entry of `benchmarks`. -/
structure GradedRun where
  name : BenchmarkName
  valSize : Nat
deriving DecidableEq, Repr

def benchmarks : List GradedRun :=
  [.fillseq, .fillrandom, .overwrite, .readseq, .readrandom, .deleteseq, .deleterandom].flatMap
    fun name => [⟨name, 100⟩, ⟨name, 1024⟩]

/-- `'%s_%s.txt' % (name, val_size)`. -/
def GradedRun.fileName (run : GradedRun) : String :=
  run.name.text ++ "_" ++ toString run.valSize ++ ".txt"

/-- `int(word)`. -/
def readInt : List Char → Option Int
  | '-' :: digits => (readDecimal digits).map fun number => -(number : Int)
  | '+' :: digits => (readDecimal digits).map fun number => (number : Int)
  | digits => (readDecimal digits).map fun number => (number : Int)

/-- The rate that the loop adds for a line; `none` when it raises. -/
def lineRate (name : String) (line : List Char) : Option Int := do
  let words := words isSpace (strip isSpace line)
  let benchName ← words[0]?
  if benchName = name.toList then
    readInt (← words[4]?)
  else none

/-- `lines[-4:]`. -/
def lastFour (lines : List (List Char)) : List (List Char) :=
  lines.drop (lines.length - 4)

/-- The sum over the last lines of a file, which is missing if it cannot be opened. -/
def sumRates (name : String) (file : Option (List Char)) : Option Int := do
  let contents ← file
  (lastFour (Csv.lines contents)).foldlM
    (fun tput line => do return tput + (← lineRate name line)) 0

variable (files : String → Option (List Char))

/-- The throughput of a run: any exception makes it 0. -/
def GradedRun.tput (run : GradedRun) : Int :=
  (sumRates run.name.text (files run.fileName)).getD 0

def tputs : List Int := benchmarks.map (GradedRun.tput files)

/-- `int(sum(tputs) / len(tputs))`, with the floor division of integers. -/
def meanTput : Int := (tputs files).sum.fdiv (tputs files).length

/-- The two lines of the output file. -/
def perfCsvRows : List (List String) :=
  ["AverageThroughput" :: benchmarks.map GradedRun.fileName,
    (meanTput files :: tputs files).map toString]

/-- The text of the output file. -/
def perfCsv : String := Csv.join (perfCsvRows files)

example : benchmarks.map GradedRun.fileName
    = ["fillseq_100.txt", "fillseq_1024.txt", "fillrandom_100.txt", "fillrandom_1024.txt",
      "overwrite_100.txt", "overwrite_1024.txt", "readseq_100.txt", "readseq_1024.txt",
      "readrandom_100.txt", "readrandom_1024.txt", "deleteseq_100.txt", "deleteseq_1024.txt",
      "deleterandom_100.txt", "deleterandom_1024.txt"] := by
  decide +kernel

-----------------------------------------------------------------------------------------
-- Reading report lines
-----------------------------------------------------------------------------------------

theorem solid_of_all {text : List Char} (all : text.all (fun character => !isSpace character))
    : ∀ character ∈ text, isSpace character = false := by
  simpa using all

theorem BenchmarkName.text_solid (name : BenchmarkName)
    : name.text.toList ≠ [] ∧ ∀ character ∈ name.text.toList, isSpace character = false := by
  cases name <;> exact ⟨by decide +kernel, solid_of_all (by decide +kernel)⟩

theorem toString_solid (number : Nat)
    : (toString number).toList ≠ []
      ∧ ∀ character ∈ (toString number).toList, isSpace character = false := by
  refine ⟨fun empty => ?_, fun character member => ?_⟩
  · have read := readDecimal_toString number
    rw [empty] at read
    cases read
  · have digit := isDigit_of_mem_toString member
    cases space : isSpace character with
    | false => rfl
    | true =>
        simp only [isSpace, List.mem_cons, List.not_mem_nil, or_false, decide_eq_true_eq] at space
        rcases space with rfl | rfl | rfl | rfl | rfl | rfl <;> cases digit

/-- The number in a text is read by `int`. -/
theorem readInt_toString (number : Nat)
    : readInt (toString number).toList = some (number : Int) := by
  have digits (character : Char) (member : character ∈ (toString number).toList)
      : character.isDigit = true :=
    isDigit_of_mem_toString member
  unfold readInt
  split
  · next same => cases digits '-' (same ▸ List.mem_cons_self)
  · next same => cases digits '+' (same ▸ List.mem_cons_self)
  · rw [readDecimal_toString]
    rfl

/-- The first words of a report line, also with its line feed: the rate is the fifth. -/
theorem RateReport.words_line (name : BenchmarkName) (report : RateReport)
    : ∃ rest, words isSpace (report.line name.text ++ ['\n'])
      = [name.text.toList, [':'], report.micros, "micros/op".toList,
          (toString report.rate).toList] ++ rest := by
  let after : List Char :=
    "ops/sec;".toList ++ (if report.extra = [] then [] else [' ']) ++ report.extra ++ ['\n']
  have spaced : report.line name.text ++ ['\n']
      = (name.text.toList ++ List.replicate (12 - name.text.length) ' ')
        ++ ' ' :: ([':'] ++ ' ' :: (List.replicate (11 - report.micros.length) ' '
          ++ (report.micros ++ ' ' :: ("micros/op".toList
            ++ ' ' :: ((toString report.rate).toList ++ ' ' :: after))))) := by
    simp [RateReport.line, after]
  obtain ⟨named, solidName⟩ := name.text_solid
  obtain ⟨digits, solidRate⟩ := toString_solid report.rate
  have blank : isSpace ' ' = true := rfl
  refine ⟨words isSpace after, ?_⟩
  rw [spaced, words_append_cons _ _ blank, words_append_replicate blank,
    words_of_word named solidName, words_word_append (by simp) (solid_of_all rfl) blank,
    words_replicate_append blank, words_word_append report.microsNonempty report.microsSolid blank,
    words_word_append (by decide) (solid_of_all rfl) blank,
    words_word_append digits solidRate blank]
  rfl

/-- The loop adds the rate of a report line. -/
theorem lineRate_line (name : BenchmarkName) (report : RateReport)
    : lineRate name.text (report.line name.text ++ ['\n']) = some (report.rate : Int) := by
  obtain ⟨rest, split⟩ := report.words_line name
  have rate := readInt_toString report.rate
  simp only [lineRate, words_strip, split, List.cons_append, List.getElem?_cons_zero,
    List.getElem?_cons_succ, Option.bind_eq_bind, Option.bind_some, if_true, rate]

theorem RateReport.line_whole (name : BenchmarkName) (report : RateReport)
    : '\n' ∉ report.line name.text := by
  have solid {text : List Char} (within : ∀ character ∈ text, isSpace character = false)
      : '\n' ∉ text :=
    fun member => Bool.noConfusion (within '\n' member)
  have named := solid name.text_solid.2
  have micros := solid report.microsSolid
  have rate := solid (toString_solid report.rate).2
  have extra := report.extraWhole
  have joined : '\n' ∉ (if report.extra = [] then [] else [' ']) := by
    split <;> decide
  simp only [RateReport.line, List.mem_append, not_or]
  refine ⟨⟨⟨⟨⟨⟨⟨⟨⟨named, ?_⟩, ?_⟩, ?_⟩, micros⟩, ?_⟩, rate⟩, ?_⟩, joined⟩, extra⟩
  · exact fun member => absurd (List.eq_of_mem_replicate member) (by decide)
  · decide
  · exact fun member => absurd (List.eq_of_mem_replicate member) (by decide)
  · decide
  · decide

-----------------------------------------------------------------------------------------
-- The throughput of a run
-----------------------------------------------------------------------------------------

/-- The output of a run: any lines and then four reports of the benchmark, with the sum of
their rates.
-/
def Prints (name : BenchmarkName) (contents : List Char) (total : Nat) : Prop :=
  ∃ (earlier : List (List Char)) (reports : List RateReport),
    (∀ line ∈ earlier, '\n' ∉ line) ∧ reports.length = 4
    ∧ contents = printedLines (earlier ++ reports.map (RateReport.line name.text))
    ∧ total = (reports.map RateReport.rate).sum

/-- A run that does not count: its file is missing, or one of the last four lines has another
first word than the benchmark or no integer as its fifth word.
-/
def Uncounted (run : GradedRun) : Prop :=
  files run.fileName = none
  ∨ ∃ contents, files run.fileName = some contents
    ∧ ∃ line ∈ lastFour (Csv.lines contents),
      (words isSpace line)[0]? ≠ some run.name.text.toList
      ∨ (words isSpace line)[4]?.bind readInt = none

theorem lastFour_append {earlier last : List (List Char)} (four : last.length = 4)
    : lastFour (earlier ++ last) = last := by
  rw [lastFour, List.length_append, four, Nat.add_sub_cancel, List.drop_left]

/-- The loop adds the rates of report lines, by induction on them. -/
theorem foldlM_lineRate (name : BenchmarkName) (reports : List RateReport) (tput : Int)
    : (reports.map fun report => report.line name.text ++ ['\n']).foldlM
        (fun tput line => do return tput + (← lineRate name.text line)) tput
      = some (tput + (reports.map RateReport.rate).sum) := by
  induction reports generalizing tput with
  | nil => simp
  | cons report rest ih =>
      rw [List.map_cons, List.foldlM_cons, lineRate_line]
      refine (ih (tput + report.rate)).trans ?_
      rw [List.map_cons, List.sum_cons, Int.natCast_add, Int.add_assoc]

/-- A file that ends in four reports counts the sum of their rates. -/
theorem tput_of_prints {run : GradedRun} {contents : List Char} {total : Nat}
    (file : files run.fileName = some contents) (prints : Prints run.name contents total)
    : run.tput files = total := by
  obtain ⟨earlier, reports, whole, four, rfl, rfl⟩ := prints
  have split : Csv.lines (printedLines (earlier ++ reports.map (RateReport.line run.name.text)))
      = earlier.map (· ++ ['\n'])
        ++ reports.map fun report => report.line run.name.text ++ ['\n'] := by
    rw [printedLines, Csv.lines_flatMap, List.map_append, List.map_map]
    · rfl
    · intro text member
      rcases List.mem_append.mp member with early | reported
      · exact whole text early
      · obtain ⟨report, _, rfl⟩ := List.mem_map.mp reported
        exact report.line_whole run.name
  have sum : sumRates run.name.text (files run.fileName)
      = some ((reports.map RateReport.rate).sum : Int) := by
    rw [file, sumRates, Option.bind_eq_bind, Option.bind_some, split,
      lastFour_append (by rw [List.length_map, four]), foldlM_lineRate, Int.zero_add]
  rw [GradedRun.tput, sum, Option.getD_some]

/-- A line that does not count ends the loop with an exception. -/
theorem foldlM_lineRate_none {name : String} {lines : List (List Char)} {line : List Char}
    (member : line ∈ lines) (raises : lineRate name line = none) (tput : Int)
    : lines.foldlM (fun tput line => do return tput + (← lineRate name line)) tput = none := by
  induction lines generalizing tput with
  | nil => cases member
  | cons first rest ih =>
      rw [List.foldlM_cons]
      rcases List.mem_cons.mp member with rfl | later
      · rw [raises]
        rfl
      · cases rate : lineRate name first with
        | none => rfl
        | some added => exact ih later (tput + added)

theorem lineRate_none {name : String} {line : List Char}
    (uncounted : (words isSpace line)[0]? ≠ some name.toList
      ∨ (words isSpace line)[4]?.bind readInt = none)
    : lineRate name line = none := by
  simp only [lineRate, words_strip]
  cases first : (words isSpace line)[0]? with
  | none => rfl
  | some benchName =>
      rw [Option.bind_eq_bind, Option.bind_some]
      split
      · next same =>
        rcases uncounted with other | unread
        · exact absurd (same ▸ first) other
        · exact unread
      · rfl

theorem tput_of_uncounted {run : GradedRun} (uncounted : Uncounted files run)
    : run.tput files = 0 := by
  rcases uncounted with missing | ⟨contents, file, line, member, uncounted⟩
  · rw [GradedRun.tput, missing]
    rfl
  · rw [GradedRun.tput, file, sumRates, Option.bind_eq_bind, Option.bind_some,
      foldlM_lineRate_none member (lineRate_none uncounted), Option.getD_none]

/-- The totals of the runs: the sum of the four rates for every run that ends in reports, and
nothing for the runs that do not count.
-/
def TotalsOf (totals : GradedRun → Nat) : Prop :=
  ∀ run ∈ benchmarks,
    (∃ contents, files run.fileName = some contents ∧ Prints run.name contents (totals run))
    ∨ (Uncounted files run ∧ totals run = 0)

theorem TotalsOf.tput {totals : GradedRun → Nat} (totalled : TotalsOf files totals)
    {run : GradedRun} (member : run ∈ benchmarks)
    : run.tput files = totals run := by
  rcases totalled run member with ⟨contents, file, prints⟩ | ⟨uncounted, nothing⟩
  · exact tput_of_prints files file prints
  · rw [tput_of_uncounted files uncounted, nothing]
    rfl

/-- The sum of four rates. -/
theorem TotalsOf.le {totals : GradedRun → Nat} (totalled : TotalsOf files totals)
    {run : GradedRun} (member : run ∈ benchmarks)
    : totals run ≤ 4 * maxRate := by
  rcases totalled run member with ⟨_, _, _, reports, _, four, _, total⟩ | ⟨_, nothing⟩
  · have bounded : ∀ rate ∈ reports.map RateReport.rate, rate ≤ maxRate :=
      List.forall_mem_map.mpr fun report _ => report.rateBounded
    have sum := List.sum_le_card_nsmul _ _ bounded
    rwa [List.length_map, four, smul_eq_mul, ← total] at sum
  · rw [nothing]
    exact Nat.zero_le _

/-- The mean of the runs, for totals that are natural numbers. -/
def meanTotal (totals : GradedRun → Nat) : Nat := (benchmarks.map totals).sum / benchmarks.length

section Counted

variable {files} {totals : GradedRun → Nat}
    (counted : ∀ run ∈ benchmarks, run.tput files = totals run)
include counted

theorem tputs_of_counted : tputs files = (benchmarks.map totals).map Nat.cast := by
  rw [tputs, List.map_map]
  exact List.map_congr_left counted

theorem meanTput_of_counted : meanTput files = meanTotal totals := by
  rw [meanTput, tputs_of_counted counted, List.length_map, List.length_map, meanTotal,
    Int.ofNat_fdiv, Nat.cast_list_sum]

/-- The rows of the file, with the texts of natural numbers. -/
theorem perfCsvRows_of_counted
    : perfCsvRows files
      = ["AverageThroughput" :: benchmarks.map GradedRun.fileName,
        toString (meanTotal totals) :: (benchmarks.map totals).map toString] := by
  rw [perfCsvRows, meanTput_of_counted counted, tputs_of_counted counted, List.map_cons,
    List.map_map]
  rfl

end Counted

end PMKVLab.Bench
