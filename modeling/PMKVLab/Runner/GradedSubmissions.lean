import PMKVLab.Grading.ReferenceRuns
import PMKVLab.Runner.Outcomes

/-! What a submission is told about its tests: from the processes of the tests over their
reports and result files to the files of the `SubmissionResult`.
-/

namespace PMKVLab.Runner

open PMKVLab.Library PMKVLab.Store
open PMKVLab.Grading (GradedTest Results)

variable {world : World}

/-- The command of the lab has left these result files, and the file of the benchmarks. -/
structure LeftResults (results : Results) (after : world.Tree) : Prop where
  tests : ∀ test : GradedTest, world.read after test.text = (results test.text).map .ok
  perf : world.read after perfCsv ≠ none

/-- `make bench_all` ends within the time limit and leaves these result files, wherever it
runs.
-/
def MakesResults (world : World) (results : Results) : Prop :=
  ∀ (execution : Execution world) ending after, execution.command = labSpec .runCmd
    → execution.Ended ending after
    → (∃ code, ending = .exited code) ∧ LeftResults results after

/-- The names of the outputs are those that `lab.py` lists. -/
theorem outputs_of_labSpec {outputs : List String}
    (named : (labSpec .outputFiles).iterate = .ok (outputs.map .str))
    : outputs = GradedTest.all.map GradedTest.text ++ [perfCsv] :=
  (List.map_injective_iff.mpr (fun _ _ => Py.str.inj) (Except.ok.inj named)).symm

theorem text_not_stream (test : GradedTest) : test.text ∉ streams := by
  cases test <;> decide

/-- The figures of this lab are read from fields, so that nothing changes the files. -/
theorem labSpec_leavesFiles (interpreter : Interpreter) : LeavesFiles interpreter labSpec := by
  rintro text scope ⟨_, ⟨rfl⟩, i, member, function⟩
  rw [List.mem_singleton.mp member] at function
  cases function

/-- When the command has made the result files, a run without exceptions returns `SUCCESS`
and the text of each result file under the name of its test.
-/
theorem Quiet.shows_results {interpreter : Interpreter} {flags : RunFlags} {environ : Environ}
    {sub : Submission} {result : SubmissionResult} {final : RunState world}
    (quiet : Quiet interpreter flags world environ sub result final)
    (native : flags.runInDocker = false) (spec : result.submission.labSpec = labSpec)
    {results : Results} (makes : MakesResults world results)
    (made : ∀ test : GradedTest, results test.text ≠ none)
    : result.status = .str Status.success.text
      ∧ ∀ (test : GradedTest) text, results test.text = some text
        → result.files.getItem (.str test.text) = .ok (.str text) := by
  obtain ⟨outcome, isOutcome, shown⟩ := quiet.shown
  rw [spec] at isOutcome
  obtain ⟨named, execution, -, command, ended⟩ := isOutcome
  have run : execution.command = labSpec .runCmd := by
    rw [command, commandOf, native]
    rfl
  obtain ⟨⟨code, exited⟩, left⟩ := makes execution _ _ run ended
  have outputs := outputs_of_labSpec named
  constructor
  · refine (shown.status_iff .success).mpr (Outcome.status_eq_success_iff.mpr
      ⟨by simp [exited], fun name member _ => ?_⟩)
    rw [outputs, List.mem_append, List.mem_map] at member
    rcases member with ⟨test, -, rfl⟩ | perf
    · rw [left.tests]
      exact fun none => made test (Option.map_eq_none_iff.mp none)
    · rw [List.mem_singleton.mp perf]
      exact left.perf
  · intro test text written
    have member : test.text ∈ outcome.outputs := by
      rw [outputs]
      exact List.mem_append_left _ (List.mem_map_of_mem test.mem_all)
    rw [quiet.files_eq (spec ▸ labSpec_leavesFiles interpreter)]
    refine getItem_filesDict ?_
    rw [shown.texts, Outcome.text, if_neg (text_not_stream test), if_pos member, storedText,
      left.tests, written]
    rfl

/-- A submission is told the truth about its tests, whatever store it implements: when the
tests of its run all come to an end, its result has the status `SUCCESS`, an empty file for
each test that passed, and the message of the failure for each other test. Earlier runs may
have left reports and result files of any kind under the names of the tests.
-/
theorem submission_shows_verdicts {E : Engine} {remove : E.State → E.State} {path : String}
    {circumstances : Grading.Circumstances} {engine last : E.State}
    {verdicts : List (GradedTest × Bool)}
    (ran : Grading.processes remove path circumstances GradedTest.all engine
      = some (verdicts, last))
    {message : GradedTest → String} (encodes : ∀ test, Grading.Encodes (message test))
    (platform : Grading.Platform) {tree : Grading.TestTree}
    (own : ∀ directory, tree.xml = some directory → Grading.OwnReports directory)
    {invocation : Grading.Invocation}
    (outcome : invocation.outcome = Grading.outcomeOf message verdicts)
    {interpreter : Interpreter} {flags : RunFlags} {environ : Environ} {sub : Submission}
    {result : SubmissionResult} {final : RunState world}
    (quiet : Quiet interpreter flags world environ sub result final)
    (native : flags.runInDocker = false) (spec : result.submission.labSpec = labSpec)
    (makes : MakesResults world (invocation.run platform tree).results)
    : result.status = .str Status.success.text
      ∧ ∀ test : GradedTest, ∃ passed, (test, passed) ∈ verdicts
        ∧ result.files.getItem (.str test.text)
          = .ok (.str (if passed then "" else message test)) := by
  have verdict := Grading.results_of_processes ran encodes platform own outcome
  have made (test : GradedTest) : (invocation.run platform tree).results test.text ≠ none := by
    obtain ⟨passed, -, held⟩ := verdict test
    simp [held]
  obtain ⟨success, files⟩ := quiet.shows_results native spec makes made
  refine ⟨success, fun test => ?_⟩
  obtain ⟨passed, member, held⟩ := verdict test
  exact ⟨passed, member, files test _ held⟩

/-- A world with the specification of this lab, in which every file exists and is empty. -/
def withEmptyFiles : World :=
  { answering (fun _ => false) with
    labInfo := fun tree => (.ok labAttribute, tree)
    read := fun _ _ => some (.ok "") }

/-- Witness: the reference implementation on a clean tree. -/
theorem submission_shows_verdicts_reference
    : ∃ result final,
      (runSubmissionLocally plainInterpreter {}).run
        (.start withEmptyFiles [] (emptySubmission labSpec)) = (.ok result, final)
      ∧ result.status = .str Status.success.text
      ∧ ∀ test : GradedTest, result.files.getItem (.str test.text) = .ok (.str "") := by
  have quiet : Quiet plainInterpreter {} withEmptyFiles [] (emptySubmission labSpec) _ _ :=
    ⟨rfl, rfl⟩
  refine ⟨_, _, quiet.returned, ?_⟩
  obtain ⟨last, ran⟩ := Grading.reference_processes tableEngine_cmapLaws tableView_alwaysRoom
    (Tests.removeTable_removes "/mnt/ramdisk/test") (by decide)
    ⟨(List.finRange 8).flatMap (List.replicate 150), by decide +kernel,
      fun _ => List.replicate 10 ⟨0, true⟩, by simp⟩
    (by decide) Tests.emptyTable_idle
  have passed {test : GradedTest} {verdict : Bool}
      (member : (test, verdict) ∈ GradedTest.all.map (·, true))
      : verdict = true := by
    obtain ⟨_, -, same⟩ := List.mem_map.mp member
    exact (Prod.mk.inj same).2.symm
  let invocation : Grading.Invocation :=
    .plain (Grading.outcomeOf (fun _ => "Failed") (GradedTest.all.map (·, true)))
  have encodes (_ : GradedTest) : Grading.Encodes "Failed" := by decide
  have own (directory) (present : Grading.cleanTree.xml = some directory)
      : Grading.OwnReports directory := by
    cases present
  have makes : MakesResults withEmptyFiles
      (invocation.run Grading.plainPlatform Grading.cleanTree).results := by
    intro execution ending after _ ended
    cases ended
    refine ⟨⟨0, rfl⟩, fun test => ?_, nofun⟩
    obtain ⟨verdict, member, held⟩ :=
      Grading.results_of_processes ran encodes Grading.plainPlatform own
        (show invocation.outcome = _ from rfl) test
    rw [held, passed member]
    rfl
  obtain ⟨success, files⟩ := submission_shows_verdicts ran encodes Grading.plainPlatform own
    (show invocation.outcome = _ from rfl) quiet rfl
    (funext fun field => by cases field <;> rfl) makes
  refine ⟨success, fun test => ?_⟩
  obtain ⟨verdict, member, shown⟩ := files test
  rw [shown, passed member]
  rfl

end PMKVLab.Runner
