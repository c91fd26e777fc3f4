import PMKVLab.Grading.OwnRuns
import PMKVLab.Recovery.Iterations
import PMKVLab.Tests.FixedKeys

/-! `make -C test run` from the stores that the tests work on to the result files. The tests
run one after another, each in a process of its own and on what the earlier ones have left
on the ramdisk.
-/

namespace PMKVLab.Grading

open PMKVLab.Library PMKVLab.Store PMKVLab.Tests
open PMKVLab.Recovery (Kill RecoveryTest)

-----------------------------------------------------------------------------------------
-- Runs that all end
-----------------------------------------------------------------------------------------

/-- Reports under the names that `run_all.sh` gives them. -/
def OwnReports (directory : Directory) : Prop :=
  ∀ file ∈ directory.files, ∃ test : GradedTest, file.1 = reportFile test.text

/-- When all tests write their reports and all messages can be written, each result file says
how its test ended in this run, whatever reports earlier runs have left and in whatever order
directories and dictionaries are iterated.
-/
theorem Invocation.results_of_ended (platform : Platform) (invocation : Invocation)
    {tree : TestTree} (own : ∀ directory, tree.xml = some directory → OwnReports directory)
    (ended : ∀ test, invocation.outcome test ≠ .dies)
    (encodes : ∀ test, Encodes (invocation.outcome test).text) (test : GradedTest)
    : (invocation.run platform tree).results test.text
      = some (invocation.outcome test).text := by
  -- every test replaces its report, so those of this run are all there are
  have reached := (Reached.refl tree.xml).runAll invocation.outcome
  have last (other : GradedTest)
      : lastEnd ([] ++ [invocation.outcome]) other = some (invocation.outcome other) := by
    rw [lastEnd_concat, if_neg (ended other)]
  have replaced (file : String × Report)
      : ¬ Remaining tree.xml ([] ++ [invocation.outcome]) file := by
    rintro ⟨member, died⟩
    obtain ⟨directory, found, inside⟩ := exists_of_mem_filesOf member
    obtain ⟨other, name⟩ := own directory found file inside
    exact ended other (died other name _ (by simp))
  obtain ⟨directory, found⟩ := Option.ne_none_iff_exists'.mp fun none =>
    ended test ((reached.missing.mp none).2 _ (by simp) test)
  rw [found] at reached
  have complete : Complete platform directory := by
    refine reached.complete (fun ⟨file, remains, _⟩ => replaced file remains) ?_
    intro outcome member other text fails
    obtain rfl : outcome = invocation.outcome := by simpa using member
    have same := encodes other
    rwa [fails] at same
  have verdict (text : String)
      : Verdict platform directory (.result test.text) text
        ↔ text = (invocation.outcome test).text := by
    rw [reached.verdict_iff]
    constructor
    · rintro (⟨ends, now, rfl⟩ | ⟨file, remains, _⟩)
      · rw [Option.some.inj (now.symm.trans (last test))]
      · exact absurd remains (replaced file)
    · exact fun same => .inl ⟨_, last test, same⟩
  have outward : Outward platform directory :=
    reached.outward_of_remaining fun file remains => absurd remains (replaced file)
  have reported : Reported platform directory test :=
    .inl ((reached.mem_names_iff test).mpr (.inr ⟨_, by simp, ended test⟩))
  have listed := invocation.listed directory
  rw [Invocation.results_of_some found,
    (main_result complete outward.separate listed tree.results).2 reported]
  rcases pass_leaves invocation.order listed test.text tree.results
    with ⟨text, written, held⟩ | ⟨none, -⟩
  · rw [held, (verdict text).mp written]
  · exact absurd ((verdict _).mpr rfl) (none _)

-----------------------------------------------------------------------------------------
-- The processes of the tests
-----------------------------------------------------------------------------------------

/-- `SIZE` of both programs. -/
def poolSize : Nat := 536870912

/-- `LARGE_SIZE`. -/
def largePoolSize : Nat := 2147483648

/-- `LARGE_LIMIT`. -/
def largeLimit : Nat := 500000

/-- `NUM_OP` of the recovery tests. -/
def numOp : Nat := 100000

/-- What the source leaves open in a run of all tests: how the calls of the eight threads
are interleaved, and when the child of each of the ten iterations is killed.
-/
structure Circumstances where
  schedule : List (Fin 8)
  joined : ∀ thread, schedule.count thread = 3 * 50
  kills : RecoveryTest → List Kill
  iterations : ∀ test, (kills test).length = 10

section Processes

variable {E : Engine} (remove : E.State → E.State) (path : String)
  (circumstances : Circumstances)

def largeProcess (descending recovery : Bool) (engine : E.State) : Option (Bool × E.State) :=
  some (LargeTest.runTest remove path largePoolSize ⟨descending, recovery, largeLimit⟩ engine)

def recoveryProcess (test : RecoveryTest) (engine : E.State) : Option (Bool × E.State) :=
  (test.runTest remove path poolSize numOp (circumstances.kills test) engine).map
    (fun (report, final) => (report.passed, final))

/-- The process of one test: whether it passes, and the state it leaves. -/
def process : GradedTest → E.State → Option (Bool × E.State)
  | .basicTest => fixedKeysTest remove path poolSize basicTest
  | .simpleTest => fixedKeysTest remove path poolSize simpleTest
  | .binaryKeyTest => fixedKeysTest remove path poolSize binaryKeyTest
  | .binaryValueTest => fixedKeysTest remove path poolSize binaryValueTest
  | .emptyKeyTest => fixedKeysTest remove path poolSize emptyKeyTest
  | .emptyValueTest => fixedKeysTest remove path poolSize emptyValueTest
  | .getClearExternalValueTest => fixedKeysTest remove path poolSize getClearExternalValueTest
  | .getHeadlessTest => fixedKeysTest remove path poolSize getHeadlessTest
  | .getMultipleTest => fixedKeysTest remove path poolSize getMultipleTest
  | .getMultiple2Test => fixedKeysTest remove path poolSize getMultiple2Test
  | .getNonexistentTest => fixedKeysTest remove path poolSize getNonexistentTest
  | .putTest => fixedKeysTest remove path poolSize putTest
  | .putKeysOfDifferentSizesTest =>
      fixedKeysTest remove path poolSize putKeysOfDifferentSizesTest
  | .putValuesOfDifferentSizesTest =>
      fixedKeysTest remove path poolSize putValuesOfDifferentSizesTest
  | .removeAllTest => fixedKeysTest remove path poolSize removeAllTest
  | .removeAndInsertTest => fixedKeysTest remove path poolSize removeAndInsertTest
  | .removeExistingTest => fixedKeysTest remove path poolSize removeExistingTest
  | .removeHeadlessTest => fixedKeysTest remove path poolSize removeHeadlessTest
  | .removeNonexistentTest => fixedKeysTest remove path poolSize removeNonexistentTest
  | .simpleMultithreadedTest =>
      simpleMultithreadedTest remove path poolSize 8 50 circumstances.schedule
  | .largeAscendingTest => largeProcess remove path false false
  | .largeAscendingAfterRecoveryTest => largeProcess remove path false true
  | .largeDescendingTest => largeProcess remove path true false
  | .largeDescendingAfterRecoveryTest => largeProcess remove path true true
  | .fillSeqRecoveryTest => recoveryProcess remove path circumstances .fillSeq
  | .overwriteSeqRecoveryTest => recoveryProcess remove path circumstances .overwriteSeq
  | .deleteSeqRecoveryTest => recoveryProcess remove path circumstances .deleteSeq

/-- The processes of a list of tests, each on what the one before has left. -/
def processes : List GradedTest → E.State → Option (List (GradedTest × Bool) × E.State)
  | [], engine => some ([], engine)
  | test :: rest, engine => do
      let (passed, next) ← process remove path circumstances test engine
      let (verdicts, final) ← processes rest next
      some ((test, passed) :: verdicts, final)

end Processes

/-- How a test has ended. Its message is whatever gtest writes about the assertion. -/
def outcomeOf (message : GradedTest → String) (verdicts : List (GradedTest × Bool))
    (test : GradedTest)
    : Outcome :=
  match verdicts.lookup test with
  | some true => .passes
  | some false => .fails (message test)
  | none => .dies

/-- The tests of `recovery_test.cc`. -/
def GradedTest.recovers : GradedTest → Bool
  | .fillSeqRecoveryTest | .overwriteSeqRecoveryTest | .deleteSeqRecoveryTest => true
  | _ => false

section Reference

variable {E : Engine} {V : E.View} (laws : E.CmapLaws V) (room : V.AlwaysRoom) {path : String}
  {remove : E.State → E.State} (removes : RemovesPool V path remove)
  (creatable : V.creatable path poolSize = true) (circumstances : Circumstances)

/-- Processes that pass and keep an invariant do so one after another, by induction on the
tests.
-/
theorem processes_pass {invariant : E.State → Prop} {tests : List GradedTest}
    (pass : ∀ test ∈ tests, ∀ engine, invariant engine
      → ∃ final, process remove path circumstances test engine = some (true, final)
        ∧ invariant final)
    {engine : E.State} (start : invariant engine)
    : ∃ final, processes remove path circumstances tests engine
        = some (tests.map (·, true), final)
      ∧ invariant final := by
  induction tests generalizing engine with
  | nil => exact ⟨engine, rfl, start⟩
  | cons test rest ih =>
      obtain ⟨next, passed, kept⟩ := pass test List.mem_cons_self engine start
      obtain ⟨final, others, last⟩ :=
        ih (fun other member => pass other (List.mem_cons_of_mem _ member)) kept
      refine ⟨final, ?_, last⟩
      simp only [processes, passed, others, Option.bind_eq_bind, Option.bind_some, List.map_cons]

theorem processes_append {first second : List GradedTest} {engine middle final : E.State}
    {before after : List (GradedTest × Bool)}
    (begins : processes remove path circumstances first engine = some (before, middle))
    (ends : processes remove path circumstances second middle = some (after, final))
    : processes remove path circumstances (first ++ second) engine
      = some (before ++ after, final) := by
  induction first generalizing engine before with
  | nil =>
      cases begins
      exact ends
  | cons test rest ih =>
      simp only [processes, Option.bind_eq_bind, Option.bind_eq_some_iff, Option.some.injEq,
        Prod.exists, Prod.mk.injEq] at begins
      obtain ⟨passed, next, ran, verdicts, _, others, rfl, rfl⟩ := begins
      simp only [List.cons_append, processes, ran, ih others, Option.bind_eq_bind,
        Option.bind_some]

include laws room removes creatable in
/-- The tests of `basic_test.cc` pass and leave the engine idle. -/
theorem basic_passes (large : V.creatable path largePoolSize = true) {test : GradedTest}
    (basic : test.recovers = false) {engine : E.State} (idle : Idle V engine)
    : ∃ final, process remove path circumstances test engine = some (true, final)
      ∧ Idle V final := by
  have fixed {lines : List Line} (listed : lines ∈ fixedKeysTests)
      : ∃ final, fixedKeysTest remove path poolSize lines engine = some (true, final)
        ∧ Idle V final := by
    have ends := inFixture_ends laws room removes creatable idle
      (runBody_ends laws room (fixedKeysTests_short lines listed))
    rwa [fixedKeysTests_mapVerdict lines listed] at ends
  have loops (descending recovery : Bool)
      : ∃ final, largeProcess remove path descending recovery engine = some (true, final)
        ∧ Idle V final := by
    have passes : PassesWith (Idle V)
        (LargeTest.runTest remove path largePoolSize ⟨descending, recovery, largeLimit⟩
          engine) :=
      LargeTest.runTest_passes laws room removes large (by simp [largeLimit]) idle
    exact ⟨_, congrArg some (Prod.ext passes.1 rfl), passes.2⟩
  cases test with
  | simpleMultithreadedTest =>
      exact inFixture_ends laws room removes creatable idle
        (threadsBody_passes laws room (by decide) circumstances.joined)
  | largeAscendingTest => exact loops false false
  | largeAscendingAfterRecoveryTest => exact loops false true
  | largeDescendingTest => exact loops true false
  | largeDescendingAfterRecoveryTest => exact loops true true
  | fillSeqRecoveryTest | overwriteSeqRecoveryTest | deleteSeqRecoveryTest => cases basic
  | basicTest | simpleTest | binaryKeyTest | binaryValueTest | emptyKeyTest | emptyValueTest
  | getClearExternalValueTest | getHeadlessTest | getMultipleTest | getMultiple2Test
  | getNonexistentTest | putTest | putKeysOfDifferentSizesTest
  | putValuesOfDifferentSizesTest | removeAllTest | removeAndInsertTest | removeExistingTest
  | removeHeadlessTest | removeNonexistentTest =>
      exact fixed (by simp [fixedKeysTests])

include laws room removes creatable in
/-- The tests of `recovery_test.cc` pass and leave no open handle. -/
theorem recovery_passes {test : GradedTest} (recovers : test.recovers = true)
    {engine : E.State} (closed : V.Closed engine)
    : ∃ final, process remove path circumstances test engine = some (true, final)
      ∧ V.Closed final := by
  have recovery (test : RecoveryTest)
      : ∃ final, recoveryProcess remove path circumstances test engine = some (true, final)
        ∧ V.Closed final := by
    have bounded : numOp < Recovery.intMax := by decide
    obtain ⟨final, ran, closed⟩ := test.runTest_passes laws room removes creatable bounded
      (circumstances.kills test) closed
    exact ⟨final, by simp only [recoveryProcess, ran, Option.map_some], closed⟩
  cases test with
  | fillSeqRecoveryTest => exact recovery .fillSeq
  | overwriteSeqRecoveryTest => exact recovery .overwriteSeq
  | deleteSeqRecoveryTest => exact recovery .deleteSeq
  | _ => cases recovers

include laws room removes creatable in
/-- All tests pass; `run_all.sh` runs those of `recovery_test.cc` last. -/
theorem reference_processes (large : V.creatable path largePoolSize = true)
    {engine : E.State} (idle : Idle V engine)
    : ∃ final, processes remove path circumstances GradedTest.all engine
      = some (GradedTest.all.map (·, true), final) := by
  obtain ⟨middle, basic, idle⟩ := processes_pass circumstances
    (fun test (member : test ∈ GradedTest.all.filter (!·.recovers)) _ idle =>
      basic_passes laws room removes creatable circumstances large
        (by simpa using (List.mem_filter.mp member).2) idle)
    idle
  obtain ⟨final, recovery, -⟩ := processes_pass circumstances
    (fun test (member : test ∈ GradedTest.all.filter (·.recovers)) _ closed =>
      recovery_passes laws room removes creatable circumstances
        (List.mem_filter.mp member).2 closed)
    idle.closed
  have split : GradedTest.all
      = GradedTest.all.filter (!·.recovers) ++ GradedTest.all.filter (·.recovers) := by
    decide
  refine ⟨final, ?_⟩
  rw [split, List.map_append]
  exact processes_append circumstances basic recovery

end Reference

-----------------------------------------------------------------------------------------
-- From the stores to the result files
-----------------------------------------------------------------------------------------

section Verdicts

variable {E : Engine} {remove : E.State → E.State} {path : String}
  {circumstances : Circumstances}

/-- Every process has a verdict, by induction on the tests. -/
theorem processes_names {tests : List GradedTest} {engine final : E.State}
    {verdicts : List (GradedTest × Bool)}
    (ran : processes remove path circumstances tests engine = some (verdicts, final))
    : verdicts.map Prod.fst = tests := by
  induction tests generalizing engine verdicts with
  | nil =>
      cases ran
      rfl
  | cons test rest ih =>
      simp only [processes, Option.bind_eq_bind, Option.bind_eq_some_iff, Option.some.injEq,
        Prod.exists, Prod.mk.injEq] at ran
      obtain ⟨_, _, -, _, _, others, rfl, rfl⟩ := ran
      rw [List.map_cons, ih others]

/-- A run in which every test comes to an end, on any store: each result file is empty if its
test has passed and holds the message of its failure otherwise.
-/
theorem results_of_processes {engine final : E.State} {verdicts : List (GradedTest × Bool)}
    (ran : processes remove path circumstances GradedTest.all engine = some (verdicts, final))
    {message : GradedTest → String} (encodes : ∀ test, Encodes (message test))
    (platform : Platform) {tree : TestTree}
    (own : ∀ directory, tree.xml = some directory → OwnReports directory) {invocation : Invocation}
    (outcome : invocation.outcome = outcomeOf message verdicts) (test : GradedTest)
    : ∃ passed, (test, passed) ∈ verdicts
      ∧ (invocation.run platform tree).results test.text
        = some (if passed then "" else message test) := by
  have names := processes_names ran
  have ends (other : GradedTest)
      : ∃ passed, (other, passed) ∈ verdicts
        ∧ invocation.outcome other = if passed then .passes else .fails (message other) := by
    obtain ⟨⟨_, passed⟩, member, rfl⟩ := List.mem_map.mp (names ▸ other.mem_all)
    have found := lookup_of_mem (names ▸ (by decide : GradedTest.all.Nodup)) member
    refine ⟨passed, member, ?_⟩
    rw [outcome, outcomeOf, found]
    cases passed <;> rfl
  have reports (other : GradedTest)
      : invocation.outcome other ≠ .dies ∧ Encodes (invocation.outcome other).text := by
    obtain ⟨passed, -, how⟩ := ends other
    rw [how]
    cases passed with
    | true => exact ⟨Outcome.noConfusion, (by decide : Encodes "")⟩
    | false => exact ⟨Outcome.noConfusion, encodes other⟩
  obtain ⟨passed, member, how⟩ := ends test
  refine ⟨passed, member, ?_⟩
  rw [invocation.results_of_ended platform own (fun other => (reports other).1)
    (fun other => (reports other).2) test, how]
  cases passed <;> rfl

end Verdicts

theorem outcomeOf_passes (message : GradedTest → String) (test : GradedTest)
    : outcomeOf message (GradedTest.all.map (·, true)) test = .passes := by
  cases test <;> rfl

/-- `make -C test run` on the reference implementation: all tests pass, however the threads
are scheduled and wherever the children are killed, and every result file is empty then.
It does not matter what the pools hold before, which reports and results earlier runs have
left, and in which order directories and dictionaries are iterated.
-/
theorem reference_run_passes {E : Engine} {V : E.View} (laws : E.CmapLaws V)
    (room : V.AlwaysRoom) {path : String} {remove : E.State → E.State}
    (removes : RemovesPool V path remove) (creatable : V.creatable path poolSize = true)
    (large : V.creatable path largePoolSize = true) (circumstances : Circumstances)
    {engine : E.State} (idle : Idle V engine)
    : ∃ verdicts final,
      processes remove path circumstances GradedTest.all engine = some (verdicts, final)
      ∧ ∀ message platform tree (invocation : Invocation),
        (∀ directory, tree.xml = some directory → OwnReports directory)
        → invocation.outcome = outcomeOf message verdicts
        → ∀ test : GradedTest, (invocation.run platform tree).results test.text = some "" := by
  obtain ⟨final, ran⟩ :=
    reference_processes laws room removes creatable circumstances large idle
  refine ⟨_, final, ran, fun message platform tree invocation own outcome test => ?_⟩
  have passes (other : GradedTest) : invocation.outcome other = .passes := by
    rw [outcome, outcomeOf_passes]
  rw [invocation.results_of_ended platform own (fun other => by simp [passes])
    (fun other => by rw [passes]; decide) test, passes]
  rfl

/-- Witness: the threads run one after another, and every child is killed inside its first
operation.
-/
theorem reference_run_passes_clean
    : ∃ verdicts final,
      @processes tableEngine (removeTable "/mnt/ramdisk/test") "/mnt/ramdisk/test"
          ⟨(List.finRange 8).flatMap (List.replicate 150), by decide +kernel,
            fun _ => List.replicate 10 ⟨0, true⟩, by simp⟩
          GradedTest.all TableState.empty
        = some (verdicts, final)
      ∧ ∀ test : GradedTest,
        ((Invocation.plain (outcomeOf (fun _ => "Failed") verdicts)).run plainPlatform
          cleanTree).results test.text = some "" := by
  obtain ⟨verdicts, final, ran, empty⟩ := reference_run_passes tableEngine_cmapLaws
    tableView_alwaysRoom (removeTable_removes "/mnt/ramdisk/test") (by decide) (by decide)
    ⟨(List.finRange 8).flatMap (List.replicate 150), by decide +kernel,
      fun _ => List.replicate 10 ⟨0, true⟩, by simp⟩ emptyTable_idle
  exact ⟨verdicts, final, ran, empty _ _ cleanTree (.plain _) (fun _ none => nomatch none) rfl⟩

end PMKVLab.Grading
