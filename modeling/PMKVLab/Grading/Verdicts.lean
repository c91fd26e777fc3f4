import PMKVLab.Grading.ScriptRuns

/-! When the result files tell the truth about the reports of a directory. -/

namespace PMKVLab.Grading

open PMKVLab.Library

/-- A directory holds a well-formed report with the case of a test and no failure in it. -/
def HoldsPass (directory : Directory) (test : GradedTest) : Prop :=
  ∃ file ∈ directory.files, ∃ root, file.2 = some root
    ∧ ∃ case ∈ casesOf root, case.testName = .ok test.text
      ∧ case.testcase.find "failure" = none

/-- Every graded test has a result file, which is empty exactly for a test that passed. -/
def Truthful (directory : Directory) (results : Results) : Prop :=
  ∀ test : GradedTest, ∃ text, results test.text = some text
    ∧ (text = "" ↔ HoldsPass directory test)

/-- The script leaves truthful result files, whatever they held before and in whatever order
the directory and the dictionaries are iterated.
-/
def LeavesTruth (platform : Platform) (directory : Directory) : Prop :=
  ∀ listing order results, listing.Perm directory.names
    → Truthful directory ((main platform order listing).run ⟨directory, results⟩).2.results

/-- The directories for which the script leaves the truth. Every case has its names and its
message. The last case of each name leads to a file that can be opened and is none of the
directory, and its message is ASCII. A test without a report file passes in no report; the last
cases that lead to the result file of a test with one are there, and have no message if the
test passes in some report and a message if it passes in none.
-/
structure Unambiguous (platform : Platform) (directory : Directory) : Prop where
  readable : ∀ file ∈ directory.files, file.2.Readable
  written : ∀ file ∈ directory.files, ∀ name text, file.2.Decides name text
    → platform.place name ≠ none ∧ Encodes text
  separate : Separate platform directory
  absent : ∀ test : GradedTest, ¬ Reported platform directory test
    → ¬ HoldsPass directory test
  decided : ∀ test : GradedTest, Reported platform directory test
    → ∃ text, Verdict platform directory (.result test.text) text
  passing : ∀ test : GradedTest, Reported platform directory test → HoldsPass directory test
    → ∀ text, Verdict platform directory (.result test.text) text → text = ""
  failing : ∀ test : GradedTest, Reported platform directory test
    → ¬ HoldsPass directory test → ¬ Verdict platform directory (.result test.text) ""

variable {platform : Platform} {directory : Directory}

/-- The first two conditions let the script get through all reports. -/
theorem complete_iff
    : Complete platform directory
      ↔ (∀ file ∈ directory.files, file.2.Readable)
        ∧ ∀ file ∈ directory.files, ∀ name text, file.2.Decides name text
          → platform.place name ≠ none ∧ Encodes text := by
  have free (name text : String)
      : ¬ Blocked platform (name, text) ↔ platform.place name ≠ none ∧ Encodes text := by
    rw [Blocked, not_or, not_not]
  constructor
  · intro complete
    exact ⟨fun file member => (complete file member).readable,
      fun file member name text decides =>
        (free name text).mp ((complete file member).free name text decides)⟩
  · rintro ⟨readable, written⟩ file member
    exact ⟨readable file member,
      fun name text decides => (free name text).mpr (written file member name text decides)⟩

/-- A script that stops leaves some test without a result file: with the report that stops it
first, one file is emptied at most, and there is more than one test.
-/
theorem LeavesTruth.complete (truth : LeavesTruth platform directory)
    : Complete platform directory := by
  by_contra stops
  obtain ⟨file, member, incomplete⟩
      : ∃ file ∈ directory.files, ¬ file.2.Complete platform := by
    simpa [Complete] using stops
  obtain ⟨rest, listed⟩ := Directory.exists_first member
  let disk : Disk := ⟨directory, fun _ => none⟩
  have same : disk.xml.report file.1 = file.2 := directory.report_of_mem member
  obtain ⟨raised, entries, few, run⟩ :=
    parseTestResult_stops_at_once (show ¬ (disk.xml.report file.1).Complete platform from
      same ▸ incomplete)
  have left := main_stopped run rest
  let emptied := (resultWrites (placed platform entries)).map Prod.fst
  have short : emptied.length ≤ 1 := by
    refine Nat.le_trans ?_ few
    rw [List.length_map]
    exact Nat.le_trans (List.length_filterMap_le _ _) (List.length_filterMap_le _ _)
  have named (test : GradedTest) : test.text ∈ emptied := by
    obtain ⟨text, held, _⟩ := truth _ (.blockedFirst platform) (fun _ => none) listed test
    by_contra other
    rw [left, disk.results_writeAll, overwritten_of_notMem _ other] at held
    cases held
  obtain ⟨only, same⟩ := List.length_eq_one_iff.mp
    (Nat.le_antisymm short (List.length_pos_of_mem (named .basicTest)))
  have basic := List.mem_singleton.mp (same ▸ named .basicTest)
  have simple := List.mem_singleton.mp (same ▸ named .simpleTest)
  cases GradedTest.text_injective (basic.trans simple.symm)

/-- A platform on which a result file is opened under the name of its test, and `test/xml` is
the directory of the reports.
-/
def plainPlatform : Platform where
  place name :=
    if "test/xml/".toList <+: name.toList then
      some (.report (String.ofList (name.toList.drop 9)))
    else some (.result name)
  graded test := by cases test <;> decide +kernel
  parse _ := none

/-- A directory with one file. -/
def Directory.single (name : String) (report : Report) : Directory :=
  ⟨[(name, report)], List.nodup_singleton _⟩

/-- A case that leads to the missing report file of a test creates it, so that the test gets no
result file at all.
-/
example
    : ((main plainPlatform .inserted ["suite.xml"]).run
          ⟨.single "suite.xml" (some (.mk "testsuites" []
            [.mk "testsuite" [("name", "test/xml/PMKVTest")]
              [.mk "testcase" [("name", "SimpleTest.xml")] []]])), fun _ => none⟩).2.results
        GradedTest.simpleTest.text
        = none := by
  decide +kernel

end PMKVLab.Grading
