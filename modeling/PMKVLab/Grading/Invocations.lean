import PMKVLab.Grading.StoppedRuns

/-! Sequences of `make -C test run`. The reports of earlier invocations stay in the directory
`xml`, so a test that dies before it writes its report is graded from an older one.
-/

namespace PMKVLab.Grading

open PMKVLab.Library

-----------------------------------------------------------------------------------------
-- One invocation
-----------------------------------------------------------------------------------------

/-- How a test process ends. -/
inductive Outcome
  | passes
  | fails (message : String)
  /-- Before it writes its report. -/
  | dies
deriving DecidableEq, Repr

/-- The elements inside the test case of a report. -/
def failureElements : Outcome → List Element
  | .fails message => [.mk "failure" [("message", message)] []]
  | _ => []

/-- The report of a run with `--gtest_filter` set to one test. -/
def gtestReport (test : GradedTest) (outcome : Outcome) : Element :=
  .mk "testsuites" [] [.mk "testsuite" [("name", test.suiteAndName.1)]
    [.mk "testcase" [("name", test.suiteAndName.2)] (failureElements outcome)]]

/-- One command of `run_all.sh`. The directory `xml` may not exist yet, and a test that writes
its report creates it.
-/
def runTest (outcome : GradedTest → Outcome) (xml : Option Directory) (test : GradedTest)
    : Option Directory :=
  match outcome test with
  | .dies => xml
  | ended =>
      some ((xml.getD .empty).put (reportFile test.text) (some (gtestReport test ended)))

/-- `run_all.sh`. -/
def runAll (outcome : GradedTest → Outcome) (xml : Option Directory) : Option Directory :=
  GradedTest.all.foldl (runTest outcome) xml

/-- The reports and the result files. -/
structure TestTree where
  xml : Option Directory
  results : Results

/-- What an invocation depends on: the ends of its tests, the order of `os.listdir` and that
of dictionaries.
-/
structure Invocation where
  outcome : GradedTest → Outcome
  listdir : Directory → List String
  listed : ∀ directory, (listdir directory).Perm directory.names
  order : DictOrder

/-- An invocation with the plain orders. -/
def Invocation.plain (outcome : GradedTest → Outcome) : Invocation where
  outcome := outcome
  listdir := Directory.names
  listed _ := .refl _
  order := .inserted

/-- `make -C test run`: `make clean` removes only `bin`, and `.IGNORE` goes on to
`parse_result.py` whatever happened before. Without the directory the script raises at once.
-/
def Invocation.run (platform : Platform) (tree : TestTree) (invocation : Invocation)
    : TestTree :=
  match runAll invocation.outcome tree.xml with
  | none => ⟨none, tree.results⟩
  | some directory =>
      let left := ((main platform invocation.order (invocation.listdir directory)).run
        ⟨directory, tree.results⟩).2
      ⟨some left.xml, left.results⟩

/-- The tree after a sequence of invocations. -/
def treeAfter (platform : Platform) (start : TestTree) (invocations : List Invocation)
    : TestTree :=
  invocations.foldl (Invocation.run platform) start

/-- After every invocation of a sequence whose tests end in the given ways, an empty result
file belongs to a test that passed in that invocation.
-/
def GradesOwnRun (platform : Platform) (start : TestTree)
    (outcomes : List (GradedTest → Outcome)) : Prop :=
  ∀ invocations : List Invocation, invocations.map Invocation.outcome = outcomes
    → ∀ earlier invocation later, invocations = earlier ++ invocation :: later
    → ∀ test : GradedTest,
      (treeAfter platform start (earlier ++ [invocation])).results test.text = some ""
      → invocation.outcome test = .passes

theorem treeAfter_concat (platform : Platform) (start : TestTree) (earlier : List Invocation)
    (invocation : Invocation)
    : treeAfter platform start (earlier ++ [invocation])
      = invocation.run platform (treeAfter platform start earlier) :=
  List.foldl_append

-----------------------------------------------------------------------------------------
-- The reports of one run
-----------------------------------------------------------------------------------------

/-- What the result file of a test says. -/
def Outcome.text : Outcome → String
  | .fails message => message
  | _ => ""

theorem reportFile_injective {left right : GradedTest}
    (same : reportFile left.text = reportFile right.text)
    : left = right :=
  GradedTest.text_injective (String.append_left_inj _ |>.mp same)

/-- The file that a test writes. -/
def ownReport (test : GradedTest) (outcome : Outcome) : String × Report :=
  (reportFile test.text, some (gtestReport test outcome))

/-- A report has one verdict, that of its test. -/
theorem ownReport_ret (test : GradedTest) (outcome : Outcome)
    : (ownReport test outcome).2.ret = .ok [(test.text, outcome.text)] := by
  cases outcome <;> rfl

theorem ownReport_decides (test : GradedTest) (outcome : Outcome) {name text : String}
    : (ownReport test outcome).2.Decides name text ↔ name = test.text ∧ text = outcome.text := by
  rw [← Report.mem_ret (ownReport_ret test outcome), List.mem_singleton, Prod.mk.injEq]

/-- The files of a directory; there are none as long as it does not exist. -/
def filesOf (xml : Option Directory) : List (String × Report) := (xml.getD .empty).files

theorem Directory.mem_put {directory : Directory} {name : String} {report : Report}
    {file : String × Report}
    : file ∈ (directory.put name report).files
      ↔ file = (name, report) ∨ file ∈ directory.files ∧ file.1 ≠ name := by
  constructor
  · intro member
    by_cases same : file.1 = name
    · have found := Directory.report_of_mem _ member
      rw [same, Directory.report_put_self] at found
      exact .inl (Prod.ext same found.symm)
    · rcases mem_setItem member with new | old
      · exact .inl new
      · exact .inr ⟨old, same⟩
  · intro found
    have named : file.1 ∈ (directory.put name report).names := by
      rcases found with rfl | ⟨old, -⟩
      · exact directory.mem_names_put.mpr (.inl rfl)
      · exact directory.mem_names_put.mpr (.inr (List.mem_map_of_mem old))
    have member := Directory.mem_files_of_name _ named
    rcases found with rfl | ⟨old, apart⟩
    · rwa [Directory.report_put_self] at member
    · rwa [Directory.report_put_of_ne _ apart, directory.report_of_mem old] at member

/-- The reports of a list of tests replace older ones, by induction on the tests. -/
theorem mem_filesOf_runTests (outcome : GradedTest → Outcome) (tests : List GradedTest)
    (xml : Option Directory) {file : String × Report}
    : file ∈ filesOf (tests.foldl (runTest outcome) xml)
      ↔ (∃ test ∈ tests, outcome test ≠ .dies ∧ file = ownReport test (outcome test))
        ∨ file ∈ filesOf xml
          ∧ ∀ test ∈ tests, file.1 = reportFile test.text → outcome test = .dies := by
  induction tests generalizing xml with
  | nil => simp
  | cons test rest ih =>
      have one : file ∈ filesOf (runTest outcome xml test)
          ↔ (outcome test ≠ .dies ∧ file = ownReport test (outcome test))
            ∨ file ∈ filesOf xml ∧ (file.1 = reportFile test.text → outcome test = .dies) := by
        cases ended : outcome test with
        | dies => simp [runTest, ended]
        | passes | fails =>
            simp only [runTest, ended, filesOf, Option.getD_some]
            rw [Directory.mem_put]
            simp [ownReport]
      rw [List.foldl_cons, ih, one]
      constructor
      · rintro (⟨other, member, ended, rfl⟩ | ⟨⟨ended, rfl⟩ | ⟨old, died⟩, others⟩)
        · exact .inl ⟨other, List.mem_cons_of_mem _ member, ended, rfl⟩
        · exact .inl ⟨test, List.mem_cons_self, ended, rfl⟩
        · exact .inr ⟨old, List.forall_mem_cons.mpr ⟨died, others⟩⟩
      · rintro (⟨other, member, ended, rfl⟩ | ⟨old, died⟩)
        · by_cases later : other ∈ rest
          · exact .inl ⟨other, later, ended, rfl⟩
          · obtain rfl : other = test := (List.mem_cons.mp member).resolve_right later
            refine .inr ⟨.inl ⟨ended, rfl⟩, fun twin inside same => ?_⟩
            exact absurd (reportFile_injective same ▸ inside) later
        · obtain ⟨own, others⟩ := List.forall_mem_cons.mp died
          exact .inr ⟨.inr ⟨old, own⟩, others⟩

theorem mem_filesOf_runAll (outcome : GradedTest → Outcome) (xml : Option Directory)
    {file : String × Report}
    : file ∈ filesOf (runAll outcome xml)
      ↔ (∃ test, outcome test ≠ .dies ∧ file = ownReport test (outcome test))
        ∨ file ∈ filesOf xml ∧ ∀ test, file.1 = reportFile test.text → outcome test = .dies := by
  simp only [runAll, mem_filesOf_runTests, GradedTest.mem_all, true_and, forall_const]

/-- The directory is still missing when every test has died. -/
theorem runAll_eq_none (outcome : GradedTest → Outcome) (xml : Option Directory)
    : runAll outcome xml = none ↔ xml = none ∧ ∀ test, outcome test = .dies := by
  have tests (tests : List GradedTest) (xml : Option Directory)
      : tests.foldl (runTest outcome) xml = none
        ↔ xml = none ∧ ∀ test ∈ tests, outcome test = .dies := by
    induction tests generalizing xml with
    | nil => simp
    | cons test rest ih =>
        rw [List.foldl_cons, ih, List.forall_mem_cons, ← and_assoc]
        refine and_congr_left fun _ => ?_
        cases ended : outcome test <;> simp [runTest, ended]
  simp only [runAll, tests, GradedTest.mem_all, forall_const]

-----------------------------------------------------------------------------------------
-- The reports after a sequence
-----------------------------------------------------------------------------------------

/-- How a test has ended the last time that it wrote a report. -/
def lastEnd (outcomes : List (GradedTest → Outcome)) (test : GradedTest) : Option Outcome :=
  ((outcomes.map (· test)).filter (· ≠ .dies)).getLast?

theorem lastEnd_concat (outcomes : List (GradedTest → Outcome)) (outcome : GradedTest → Outcome)
    (test : GradedTest)
    : lastEnd (outcomes ++ [outcome]) test
      = if outcome test = .dies then lastEnd outcomes test else some (outcome test) := by
  unfold lastEnd
  by_cases died : outcome test = .dies <;> simp [List.filter_append, died]

/-- The last report was written in one of the runs. -/
theorem exists_of_lastEnd {outcomes : List (GradedTest → Outcome)} {test : GradedTest}
    {ended : Outcome} (last : lastEnd outcomes test = some ended)
    : ended ≠ .dies ∧ ∃ outcome ∈ outcomes, outcome test = ended := by
  have member := List.mem_filter.mp (List.mem_of_getLast? last)
  exact ⟨of_decide_eq_true member.2, List.mem_map.mp member.1⟩

theorem lastEnd_eq_none_iff {outcomes : List (GradedTest → Outcome)} {test : GradedTest}
    : lastEnd outcomes test = none ↔ ∀ outcome ∈ outcomes, outcome test = .dies := by
  simp [lastEnd]

/-- A file that was there at the start and that no test has replaced. -/
def Remaining (start : Option Directory) (outcomes : List (GradedTest → Outcome))
    (file : String × Report) : Prop :=
  file ∈ filesOf start
  ∧ ∀ test, file.1 = reportFile test.text → ∀ outcome ∈ outcomes, outcome test = .dies

/-- The directory after a sequence: the last report of each test, and the files that remain. -/
structure Reached (start : Option Directory) (outcomes : List (GradedTest → Outcome))
    (xml : Option Directory) : Prop where
  missing : xml = none ↔ start = none ∧ ∀ outcome ∈ outcomes, ∀ test, outcome test = .dies
  files : ∀ file, file ∈ filesOf xml
    ↔ (∃ test ended, lastEnd outcomes test = some ended ∧ file = ownReport test ended)
      ∨ Remaining start outcomes file

theorem Reached.refl (start : Option Directory) : Reached start [] start where
  missing := by simp
  files file := by simp [lastEnd, Remaining]

/-- One more run of all tests. -/
theorem Reached.runAll {start xml : Option Directory} {outcomes : List (GradedTest → Outcome)}
    (reached : Reached start outcomes xml) (outcome : GradedTest → Outcome)
    : Reached start (outcomes ++ [outcome]) (runAll outcome xml) where
  missing := by
    rw [runAll_eq_none, reached.missing, and_assoc]
    simp only [List.mem_append, List.mem_singleton, or_imp, forall_and, forall_eq]
  files file := by
    rw [mem_filesOf_runAll, reached.files]
    constructor
    · rintro (⟨test, ended, rfl⟩ | ⟨⟨test, ended, last, rfl⟩ | ⟨old, kept⟩, died⟩)
      · exact .inl ⟨test, _, (lastEnd_concat _ _ _).trans (if_neg ended), rfl⟩
      · exact .inl ⟨test, ended, ((lastEnd_concat _ _ _).trans (if_pos (died test rfl))).trans last,
          rfl⟩
      · refine .inr ⟨old, fun test name other member => ?_⟩
        rcases List.mem_append.mp member with earlier | now
        · exact kept test name other earlier
        · rw [List.mem_singleton.mp now]
          exact died test name
    · rintro (⟨test, ended, last, rfl⟩ | ⟨old, kept⟩)
      · rw [lastEnd_concat] at last
        split at last
        · next died =>
          refine .inr ⟨.inl ⟨test, ended, last, rfl⟩, fun other same => ?_⟩
          rwa [← reportFile_injective same]
        · next ends =>
          cases last
          exact .inl ⟨test, ends, rfl⟩
      · exact .inr ⟨.inr ⟨old, fun test name other member =>
            kept test name other (List.mem_append_left _ member)⟩,
          fun test name => kept test name outcome (by simp)⟩

-----------------------------------------------------------------------------------------
-- Verdicts after a sequence
-----------------------------------------------------------------------------------------

/-- A readable file that remains has a verdict for the result file of a test. -/
def RemainingVerdict (platform : Platform) (start : Option Directory)
    (outcomes : List (GradedTest → Outcome)) (test : GradedTest) (text : String) : Prop :=
  ∃ file, Remaining start outcomes file ∧ file.2.Readable
    ∧ ∃ name, file.2.Decides name text ∧ platform.place name = some (.result test.text)

/-- A file that remains stops the script. -/
def Blocks (platform : Platform) (start : Option Directory)
    (outcomes : List (GradedTest → Outcome)) : Prop :=
  ∃ file, Remaining start outcomes file ∧ ¬ file.2.Complete platform

/-- There is a file `<test>.xml`, from the start or because the test has written it. -/
def HasReport (start : Option Directory) (outcomes : List (GradedTest → Outcome))
    (test : GradedTest) : Prop :=
  reportFile test.text ∈ (filesOf start).map Prod.fst
  ∨ ∃ outcome ∈ outcomes, outcome test ≠ .dies

theorem exists_of_mem_filesOf {xml : Option Directory} {file : String × Report}
    (member : file ∈ filesOf xml)
    : ∃ directory, xml = some directory ∧ file ∈ directory.files := by
  cases xml with
  | none => cases member
  | some directory => exact ⟨directory, rfl, member⟩

namespace Reached

variable {platform : Platform} {start : Option Directory}
  {outcomes : List (GradedTest → Outcome)} {directory : Directory}
  (reached : Reached start outcomes (some directory))

include reached

theorem mem_files {file : String × Report}
    : file ∈ directory.files
      ↔ (∃ test ended, lastEnd outcomes test = some ended ∧ file = ownReport test ended)
        ∨ Remaining start outcomes file :=
  reached.files file

/-- The verdicts for a test are its own last one and those that remain. -/
theorem verdict_iff (test : GradedTest) (text : String)
    : Verdict platform directory (.result test.text) text
      ↔ (∃ ended, lastEnd outcomes test = some ended ∧ text = ended.text)
        ∨ RemainingVerdict platform start outcomes test text := by
  constructor
  · rintro ⟨file, member, readable, name, decides, leads⟩
    rcases reached.mem_files.mp member with ⟨other, ended, last, rfl⟩ | remains
    · obtain ⟨rfl, rfl⟩ := (ownReport_decides other ended).mp decides
      have same : test.text = other.text :=
        Place.result.inj (Option.some.inj (leads.symm.trans (platform.graded other)))
      rw [GradedTest.text_injective same]
      exact .inl ⟨ended, last, rfl⟩
    · exact .inr ⟨file, remains, readable, name, decides, leads⟩
  · rintro (⟨ended, last, rfl⟩ | ⟨file, remains, readable, name, decides, leads⟩)
    · exact ⟨_, reached.mem_files.mpr (.inl ⟨test, ended, last, rfl⟩),
        Report.readable_of_ret (ownReport_ret test ended), test.text,
        (ownReport_decides test ended).mpr ⟨rfl, rfl⟩, platform.graded test⟩
    · exact ⟨file, reached.mem_files.mpr (.inr remains), readable, name, decides, leads⟩

theorem mem_names_iff (test : GradedTest)
    : reportFile test.text ∈ directory.names ↔ HasReport start outcomes test := by
  have own (written : ∃ outcome ∈ outcomes, outcome test ≠ .dies)
      : reportFile test.text ∈ directory.names := by
    obtain ⟨ended, last⟩ := Option.ne_none_iff_exists'.mp fun none => by
      obtain ⟨outcome, member, ends⟩ := written
      exact ends (lastEnd_eq_none_iff.mp none outcome member)
    exact List.mem_map_of_mem (reached.mem_files.mpr (.inl ⟨test, ended, last, rfl⟩))
  constructor
  · intro named
    obtain ⟨file, member, name⟩ := List.mem_map.mp named
    rcases reached.mem_files.mp member with ⟨other, ended, last, rfl⟩ | remains
    · obtain ⟨ends, outcome, inside, rfl⟩ := exists_of_lastEnd last
      exact .inr ⟨outcome, inside, reportFile_injective name ▸ ends⟩
    · exact .inl (List.mem_map.mpr ⟨file, remains.1, name⟩)
  · rintro (initial | written)
    · by_cases written : ∃ outcome ∈ outcomes, outcome test ≠ .dies
      · exact own written
      · obtain ⟨file, member, name⟩ := List.mem_map.mp initial
        refine List.mem_map.mpr ⟨file, reached.mem_files.mpr (.inr ⟨member, ?_⟩), name⟩
        intro other same outcome inside
        by_contra ends
        exact written ⟨outcome, inside, reportFile_injective (name.symm.trans same) ▸ ends⟩
    · exact own written

/-- What the tests write never leads back into the directory. -/
theorem outward_of_remaining
    (remaining : ∀ file, Remaining start outcomes file
      → ∃ initial, Outward platform initial ∧ file ∈ initial.files)
    : Outward platform directory := by
  rintro report text ⟨file, member, readable, name, decides, leads⟩
  rcases reached.mem_files.mp member with ⟨test, ended, -, rfl⟩ | remains
  · obtain ⟨rfl, -⟩ := (ownReport_decides test ended).mp decides
    cases (platform.graded test).symm.trans leads
  · obtain ⟨initial, outward, inside⟩ := remaining file remains
    exact outward report text ⟨file, inside, readable, name, decides, leads⟩

theorem outward (initially : ∀ initial, start = some initial → Outward platform initial)
    : Outward platform directory :=
  reached.outward_of_remaining fun file remains => by
    obtain ⟨initial, found, inside⟩ := exists_of_mem_filesOf remains.1
    exact ⟨initial, initially initial found, inside⟩

/-- The script gets through the reports when no file that remains stops it and all messages of
the tests are ASCII.
-/
theorem complete (free : ¬ Blocks platform start outcomes)
    (ascii : ∀ outcome ∈ outcomes, ∀ test text, outcome test = .fails text → Encodes text)
    : Complete platform directory := by
  intro file member
  rcases reached.mem_files.mp member with ⟨test, ended, last, rfl⟩ | remains
  · refine ⟨Report.readable_of_ret (ownReport_ret test ended), fun name text decides => ?_⟩
    obtain ⟨rfl, rfl⟩ := (ownReport_decides test ended).mp decides
    obtain ⟨-, outcome, inside, ends⟩ := exists_of_lastEnd last
    rintro (closed | unwritten)
    · cases (platform.graded test).symm.trans closed
    · cases ended with
      | fails message => exact unwritten (ascii outcome inside test message ends)
      | passes | dies => exact unwritten (by decide : Encodes "")
  · by_contra stops
    exact free ⟨file, remains, stops⟩

theorem not_complete (blocks : Blocks platform start outcomes)
    : ¬ Complete platform directory := by
  obtain ⟨file, remains, stops⟩ := blocks
  exact fun complete => stops (complete file (reached.mem_files.mpr (.inr remains)))

end Reached

-----------------------------------------------------------------------------------------
-- The trees of a sequence
-----------------------------------------------------------------------------------------

section Trees

variable {platform : Platform} {start : TestTree} {test : GradedTest}

theorem Invocation.results_of_none {invocation : Invocation} {tree : TestTree}
    (missing : runAll invocation.outcome tree.xml = none)
    : (invocation.run platform tree).results = tree.results := by
  rw [Invocation.run, missing]

theorem Invocation.results_of_some {invocation : Invocation} {tree : TestTree}
    {directory : Directory} (found : runAll invocation.outcome tree.xml = some directory)
    : (invocation.run platform tree).results
      = ((main platform invocation.order (invocation.listdir directory)).run
          ⟨directory, tree.results⟩).2.results := by
  rw [Invocation.run, found]

variable (initially : ∀ initial, start.xml = some initial → Outward platform initial)

include initially

/-- From a directory whose names lead outward, the reports are those of the tests, by induction
from the last invocation back.
-/
theorem treeAfter_reached (invocations : List Invocation)
    : Reached start.xml (invocations.map Invocation.outcome)
        (treeAfter platform start invocations).xml := by
  induction invocations using List.reverseRecOn with
  | nil => exact .refl start.xml
  | append_singleton earlier invocation ih =>
      have reached := ih.runAll invocation.outcome
      rw [treeAfter_concat, List.map_append]
      have same : (invocation.run platform (treeAfter platform start earlier)).xml
          = runAll invocation.outcome (treeAfter platform start earlier).xml := by
        rw [Invocation.run]
        cases found : runAll invocation.outcome (treeAfter platform start earlier).xml with
        | none => rfl
        | some directory =>
            rw [found] at reached
            exact congrArg some ((reached.outward initially).main_leaves _ _ _ "").1
      rw [same]
      exact reached

/-- The directory that the script finds after one more run of all tests. -/
theorem reached_concat (earlier : List Invocation) (outcome : GradedTest → Outcome)
    : Reached start.xml (earlier.map Invocation.outcome ++ [outcome])
        (runAll outcome (treeAfter platform start earlier).xml) :=
  (treeAfter_reached initially earlier).runAll outcome

end Trees

end PMKVLab.Grading
