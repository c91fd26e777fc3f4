import PMKVLab.Grading.Invocations
import PMKVLab.Grading.Verdicts

/-! Whether the invocations of a sequence grade each test from its own end: which initial reports
and result files and which ends of the tests let a result file be empty although its test has
not passed.
-/

namespace PMKVLab.Grading

open PMKVLab.Library

/-- What makes an invocation grade a test that does not pass in it from its own end. A failure
has a message, in ASCII. A test that dies has not passed the last time that it wrote a report.
The files that remain from the start have only verdicts in ASCII for it, and none that is empty
if it has a report file or one of them stops the script. If one of them does, the result file
was not empty at the start and the test has not passed before. If the test dies at once and its
result file was empty, the directory exists, and a file that remains has a verdict for it if it
has a report file.
-/
structure OwnVerdict (platform : Platform) (start : TestTree)
    (earlier : List (GradedTest → Outcome)) (outcome : GradedTest → Outcome)
    (test : GradedTest) : Prop where
  message : ∀ text, outcome test = .fails text → text ≠ "" ∧ Encodes text
  stale : outcome test = .dies → lastEnd earlier test ≠ some .passes
  encodes : ∀ text, RemainingVerdict platform start.xml (earlier ++ [outcome]) test text
    → Encodes text
  nonempty : HasReport start.xml (earlier ++ [outcome]) test
      ∨ Blocks platform start.xml (earlier ++ [outcome])
    → ¬ RemainingVerdict platform start.xml (earlier ++ [outcome]) test ""
  blocked : Blocks platform start.xml (earlier ++ [outcome])
    → start.results test.text ≠ some "" ∧ ∀ before ∈ earlier, before test ≠ .passes
  untouched : earlier = [] → outcome test = .dies → start.results test.text = some ""
    → (start.xml ≠ none ∨ ∃ other, outcome other ≠ .dies)
      ∧ (HasReport start.xml [outcome] test
        → ∃ text, RemainingVerdict platform start.xml [outcome] test text)

/-- Every test that does not pass in one of the invocations is graded from its own end. -/
def OwnVerdicts (platform : Platform) (start : TestTree)
    (outcomes : List (GradedTest → Outcome)) : Prop :=
  ∀ earlier outcome later, outcomes = earlier ++ outcome :: later
    → ∀ test, outcome test ≠ .passes → OwnVerdict platform start earlier outcome test

-----------------------------------------------------------------------------------------
-- The conditions suffice
-----------------------------------------------------------------------------------------

section Sufficient

variable {platform : Platform} {start : TestTree}

theorem OwnVerdicts.message {outcomes : List (GradedTest → Outcome)}
    (own : OwnVerdicts platform start outcomes) {outcome : GradedTest → Outcome}
    (member : outcome ∈ outcomes) {test : GradedTest} {text : String}
    (fails : outcome test = .fails text)
    : text ≠ "" ∧ Encodes text := by
  obtain ⟨earlier, later, split⟩ := List.append_of_mem member
  exact (own earlier outcome later split test (by simp [fails])).message text fails

variable {run : List Invocation} {invocation : Invocation} {test : GradedTest}
  (own : OwnVerdicts platform start ((run ++ [invocation]).map Invocation.outcome))
  (failed : invocation.outcome test ≠ .passes)

include own failed

theorem OwnVerdicts.last
    : OwnVerdict platform start (run.map Invocation.outcome) invocation.outcome test :=
  own (run.map Invocation.outcome) invocation.outcome [] (by simp) test failed

/-- The own report of a test that does not pass has a message that can be written. -/
theorem OwnVerdicts.text_ne_empty {ended : Outcome}
    (last : lastEnd (run.map Invocation.outcome ++ [invocation.outcome]) test = some ended)
    : ended.text ≠ "" ∧ Encodes ended.text := by
  obtain ⟨ends, outcome, member, same⟩ := exists_of_lastEnd last
  cases ended with
  | dies => exact absurd rfl ends
  | fails message => exact own.message (by simpa using member) same
  | passes =>
      rw [lastEnd_concat] at last
      split at last
      · next dies => exact absurd last ((own.last failed).stale dies)
      · exact absurd (Option.some.inj last) failed

variable (initially : ∀ initial, start.xml = some initial → Outward platform initial)

include initially

section Script

variable {directory : Directory}
  (reached : Reached start.xml (run.map Invocation.outcome ++ [invocation.outcome])
    (some directory))
  {results : Results}

include reached

/-- A script that can be stopped leaves no empty file for the test, if it found none. -/
theorem OwnVerdicts.main_ne_empty_of_blocks
    (blocks : Blocks platform start.xml (run.map Invocation.outcome ++ [invocation.outcome]))
    (before : results test.text ≠ some "")
    : ((main platform invocation.order (invocation.listdir directory)).run
        ⟨directory, results⟩).2.results test.text ≠ some "" := by
  have verdict := own.last failed
  rcases ((reached.outward initially).main_leaves invocation.order (invocation.listdir directory)
    results test.text).2 with same | error | ⟨text, written, left⟩
  · rwa [same]
  · rw [error]
    decide
  · have told : text ≠ "" ∧ Encodes text := by
      rcases (reached.verdict_iff test text).mp written with ⟨ended, last, rfl⟩ | remains
      · exact own.text_ne_empty failed last
      · refine ⟨?_, verdict.encodes text remains⟩
        rintro rfl
        exact verdict.nonempty (.inr blocks) remains
    rw [left, if_pos told.2]
    exact fun empty => told.1 (Option.some.inj empty)

/-- A script that gets through all reports leaves no empty file for the test, unless it found
one and no report has a verdict for the test.
-/
theorem OwnVerdicts.main_ne_empty_of_complete
    (free : ¬ Blocks platform start.xml (run.map Invocation.outcome ++ [invocation.outcome]))
    (before : HasReport start.xml (run.map Invocation.outcome ++ [invocation.outcome]) test
      → (∀ text, ¬ Verdict platform directory (.result test.text) text)
      → results test.text ≠ some "")
    : ((main platform invocation.order (invocation.listdir directory)).run
        ⟨directory, results⟩).2.results test.text ≠ some "" := by
  have outward := reached.outward initially
  have complete := reached.complete free fun outcome member test text fails =>
    (own.message (by simpa using member) fails).2
  have listed := invocation.listed directory
  obtain ⟨missing, present⟩ := main_result complete outward.separate listed results
  by_cases reported : Reported platform directory test
  · have hasReport := (reached.mem_names_iff test).mp ((outward.reported_iff test).mp reported)
    rw [present reported]
    rcases pass_leaves invocation.order listed test.text results
      with ⟨text, written, held⟩ | ⟨none, same⟩
    · rw [held]
      rintro ⟨rfl⟩
      rcases (reached.verdict_iff test "").mp written with ⟨ended, last, empty⟩ | remains
      · exact (own.text_ne_empty failed last).1 empty.symm
      · exact (own.last failed).nonempty (.inl hasReport) remains
    · rw [same]
      exact before hasReport none
  · rw [missing reported]
    decide

end Script

/-- A test that does not pass has no empty result file, if it had none before while it did not
pass all along.
-/
theorem OwnVerdicts.step
    (kept : run ≠ [] → (∀ earlier ∈ run, earlier.outcome test ≠ .passes)
      → (treeAfter platform start run).results test.text ≠ some "")
    : (treeAfter platform start (run ++ [invocation])).results test.text ≠ some "" := by
  have verdict := own.last failed
  have reached := reached_concat initially run invocation.outcome
  -- while nothing is written for the test it does not pass
  have unchanged (never : ∀ earlier ∈ run, earlier.outcome test ≠ .passes)
      (touched : run = [] → start.results test.text ≠ some "")
      : (treeAfter platform start run).results test.text ≠ some "" := by
    by_cases first : run = []
    · rw [first]
      exact touched first
    · exact kept first never
  have died (all : ∀ outcome ∈ run.map Invocation.outcome ++ [invocation.outcome],
      outcome test = .dies)
      : ∀ earlier ∈ run, earlier.outcome test ≠ .passes := by
    intro earlier member
    rw [all _ (List.mem_append_left _ (List.mem_map_of_mem member))]
    exact Outcome.noConfusion
  rw [treeAfter_concat]
  cases found : runAll invocation.outcome (treeAfter platform start run).xml with
  | none =>
      rw [found] at reached
      obtain ⟨noStart, allDied⟩ := reached.missing.mp rfl
      rw [Invocation.results_of_none found]
      refine unchanged (died fun outcome member => allDied outcome member test)
        fun first empty => ?_
      obtain ⟨exists_, -⟩ := verdict.untouched (by simp [first]) (allDied _ (by simp) test) empty
      rcases exists_ with started | ⟨other, ended⟩
      · exact started noStart
      · exact ended (allDied _ (by simp) other)
  | some directory =>
      rw [found] at reached
      rw [Invocation.results_of_some found]
      by_cases blocks
          : Blocks platform start.xml (run.map Invocation.outcome ++ [invocation.outcome])
      · obtain ⟨notEmpty, never⟩ := verdict.blocked blocks
        exact own.main_ne_empty_of_blocks failed initially reached blocks
          (unchanged (fun earlier member => never _ (List.mem_map_of_mem member))
            fun _ => notEmpty)
      · refine own.main_ne_empty_of_complete failed initially reached blocks
          fun hasReport none => ?_
        have all := lastEnd_eq_none_iff.mp (Option.eq_none_iff_forall_ne_some.mpr
          fun ended last => none _ ((reached.verdict_iff test _).mpr (.inl ⟨ended, last, rfl⟩)))
        refine unchanged (died all) fun first empty => ?_
        subst first
        obtain ⟨-, decided⟩ := verdict.untouched rfl (all _ (by simp)) empty
        obtain ⟨text, remains⟩ := decided hasReport
        exact none text ((reached.verdict_iff test text).mpr (.inr remains))

omit own failed in
/-- In every run that meets the conditions, by induction from the last invocation back. -/
theorem OwnVerdicts.results_ne_empty {run : List Invocation} {invocation : Invocation}
    (own : OwnVerdicts platform start ((run ++ [invocation]).map Invocation.outcome))
    (failed : invocation.outcome test ≠ .passes)
    : (treeAfter platform start (run ++ [invocation])).results test.text ≠ some "" := by
  induction run using List.reverseRecOn generalizing invocation with
  | nil => exact own.step failed initially fun some => absurd rfl some
  | append_singleton earlier last ih =>
      refine own.step failed initially fun _ never => ?_
      refine ih (fun before outcome after split => ?_) (never last (by simp))
      refine own before outcome (after ++ [invocation.outcome]) ?_
      rw [List.map_append, split]
      simp

end Sufficient

-----------------------------------------------------------------------------------------
-- The conditions are necessary
-----------------------------------------------------------------------------------------

/-- An invocation may list a directory in any order. -/
theorem exists_invocation (outcome : GradedTest → Outcome) {directory : Directory}
    {listing : List String} (listed : listing.Perm directory.names) (order : DictOrder)
    : ∃ invocation : Invocation, invocation.outcome = outcome ∧ invocation.order = order
      ∧ invocation.listdir directory = listing := by
  classical
  refine ⟨⟨outcome, fun other => if other = directory then listing else other.names, ?_, order⟩,
    rfl, rfl, if_pos rfl⟩
  intro other
  split
  · next same => rwa [same]
  · exact .refl _

/-- An invocation that takes up a file first and stops there if it can. -/
def Invocation.stopping (platform : Platform) (test : GradedTest) (name : String)
    (outcome : GradedTest → Outcome) : Invocation where
  outcome := outcome
  listdir directory :=
    if name ∈ directory.names then name :: directory.names.erase name else directory.names
  listed directory := by
    split
    · next member => exact (List.perm_cons_erase member).symm
    · exact .refl _
  order := .stopping platform (test.text, "")

theorem map_plain (outcomes : List (GradedTest → Outcome))
    : (outcomes.map Invocation.plain).map Invocation.outcome = outcomes := by
  simp [Function.comp_def, Invocation.plain]

theorem map_stopping (platform : Platform) (test : GradedTest) (name : String)
    (outcomes : List (GradedTest → Outcome))
    : (outcomes.map (Invocation.stopping platform test name)).map Invocation.outcome
      = outcomes := by
  simp [Function.comp_def, Invocation.stopping]

/-- A file that remains has remained all along. -/
theorem Remaining.of_append {start : Option Directory}
    {earlier later : List (GradedTest → Outcome)} {file : String × Report}
    (remains : Remaining start (earlier ++ later) file)
    : Remaining start earlier file :=
  ⟨remains.1, fun test name outcome member =>
    remains.2 test name outcome (List.mem_append_left _ member)⟩

section Stopping

variable {platform : Platform} {start : TestTree} {file : String × Report}
  (initially : ∀ initial, start.xml = some initial → Outward platform initial)

include initially

/-- As long as a file that stops the script remains, an empty result file can stay empty, by
induction from the last invocation back.
-/
theorem treeAfter_stopping (stops : ¬ file.2.Complete platform) {test : GradedTest}
    {run : List Invocation}
    (empty : (treeAfter platform start run).results test.text = some "")
    (later : List (GradedTest → Outcome))
    (remains : Remaining start.xml (run.map Invocation.outcome ++ later) file)
    : (treeAfter platform start (run ++ later.map (.stopping platform test file.1))).results
        test.text
      = some "" := by
  induction later using List.reverseRecOn with
  | nil => simpa using empty
  | append_singleton later outcome ih =>
      have before := ih (List.append_assoc _ _ _ ▸ remains).of_append
      let tree := treeAfter platform start (run ++ later.map (.stopping platform test file.1))
      have reached := reached_concat initially
        (run ++ later.map (.stopping platform test file.1)) outcome
      rw [List.map_append, map_stopping, List.append_assoc] at reached
      rw [List.map_append, ← List.append_assoc, List.map_singleton, treeAfter_concat]
      cases found : runAll outcome tree.xml with
      | none => rwa [Invocation.results_of_none found]
      | some directory =>
          rw [show runAll outcome _ = _ from found] at reached
          have member := reached.mem_files.mpr (.inr remains)
          have named : file.1 ∈ directory.names := List.mem_map_of_mem member
          have listing : (Invocation.stopping platform test file.1 outcome).listdir directory
              = file.1 :: directory.names.erase file.1 :=
            if_pos named
          rw [Invocation.results_of_some found, listing]
          refine main_keeps_empty (platform.graded test) ?_ _ before
          rwa [directory.report_of_mem member]

end Stopping

section Necessary

variable {platform : Platform} {start : TestTree} {outcomes : List (GradedTest → Outcome)}
  (own : GradesOwnRun platform start outcomes)

include own

section Step

variable {earlier later : List (GradedTest → Outcome)} {outcome : GradedTest → Outcome}
  {test : GradedTest} (split : outcomes = earlier ++ outcome :: later)
  (failed : outcome test ≠ .passes)

include split failed

/-- No invocations leave an empty file for the test. -/
theorem GradesOwnRun.ne_empty {run : List Invocation} (ran : run.map Invocation.outcome = earlier)
    {invocation : Invocation} (ends : invocation.outcome = outcome)
    : (treeAfter platform start (run ++ [invocation])).results test.text ≠ some "" := by
  intro empty
  refine failed (ends ▸ own (run ++ invocation :: later.map .plain) ?_ _ _ _ rfl test empty)
  rw [List.map_append, List.map_cons, map_plain, ran, ends, split]

/-- No orders of the script leave an empty file for it. -/
theorem GradesOwnRun.not_canEmpty {directory : Directory}
    (found : runAll outcome (treeAfter platform start (earlier.map .plain)).xml = some directory)
    : ¬ CanEmpty platform directory test.text := by
  rintro ⟨listing, order, listed, empty⟩
  obtain ⟨invocation, rfl, rfl, rfl⟩ := exists_invocation outcome listed order
  refine own.ne_empty split failed (map_plain earlier) rfl ?_
  rw [treeAfter_concat, Invocation.results_of_some found]
  exact empty _

end Step

variable (initially : ∀ initial, start.xml = some initial → Outward platform initial)

include initially

omit own in
/-- The directory after plain invocations and one more run of all tests. -/
theorem reached_plain (earlier : List (GradedTest → Outcome)) (outcome : GradedTest → Outcome)
    : Reached start.xml (earlier ++ [outcome])
        (runAll outcome (treeAfter platform start (earlier.map .plain)).xml) := by
  have reached := reached_concat initially (earlier.map .plain) outcome
  rwa [map_plain] at reached

omit own in
/-- The directory exists as soon as a test has written a report. -/
theorem exists_directory {earlier : List (GradedTest → Outcome)} {outcome : GradedTest → Outcome}
    {other : GradedTest → Outcome} (member : other ∈ earlier ++ [outcome]) {test : GradedTest}
    (ended : other test ≠ .dies)
    : ∃ directory, runAll outcome (treeAfter platform start (earlier.map .plain)).xml
        = some directory := by
  rw [← Option.ne_none_iff_exists']
  intro none
  exact ended (((reached_plain initially earlier outcome).missing.mp none).2 other member test)

/-- A message that is not ASCII stops the script when its report comes first, and has emptied
the result file then.
-/
theorem GradesOwnRun.ascii
    : ∀ outcome ∈ outcomes, ∀ test text, outcome test = .fails text → Encodes text := by
  intro outcome member test text fails
  obtain ⟨earlier, later, split⟩ := List.append_of_mem member
  have ended : outcome test ≠ .dies := by simp [fails]
  have failed : outcome test ≠ .passes := by simp [fails]
  have last : outcome ∈ earlier ++ [outcome] := by simp
  obtain ⟨directory, found⟩ := exists_directory initially last ended
  have reached := found ▸ reached_plain initially earlier outcome
  by_contra unwritten
  refine own.not_canEmpty split failed found (canEmpty_of_unwritten ?_ unwritten)
  refine (reached.verdict_iff test text).mpr (.inl ⟨.fails text, ?_, rfl⟩)
  rw [lastEnd_concat, if_neg ended, fails]

variable {earlier later : List (GradedTest → Outcome)} {outcome : GradedTest → Outcome}
  {test : GradedTest} (split : outcomes = earlier ++ outcome :: later)
  (failed : outcome test ≠ .passes)

include split

theorem GradesOwnRun.complete {directory : Directory}
    (reached : Reached start.xml (earlier ++ [outcome]) (some directory))
    (free : ¬ Blocks platform start.xml (earlier ++ [outcome]))
    : Complete platform directory := by
  refine reached.complete free fun other member => own.ascii initially other ?_
  rw [split]
  rcases List.mem_append.mp member with before | now
  · exact List.mem_append_left _ before
  · rw [List.mem_singleton.mp now]
    simp

include failed

/-- A test with a report file, or one whose script can be stopped, has no empty verdict. -/
theorem GradesOwnRun.no_empty_verdict {directory : Directory}
    (found : runAll outcome (treeAfter platform start (earlier.map .plain)).xml = some directory)
    (left : HasReport start.xml (earlier ++ [outcome]) test
      ∨ Blocks platform start.xml (earlier ++ [outcome]))
    : ¬ Verdict platform directory (.result test.text) "" := by
  intro verdict
  have reached := found ▸ reached_plain initially earlier outcome
  have outward := reached.outward initially
  refine own.not_canEmpty split failed found ?_
  by_cases blocks : Blocks platform start.xml (earlier ++ [outcome])
  · exact outward.canEmpty verdict (reached.not_complete blocks)
  · exact outward.canEmpty_of_complete verdict
      (own.complete initially split reached blocks)
      ((reached.mem_names_iff test).mpr (left.resolve_right blocks))

/-- A test that has written a report has not passed in the last one. -/
theorem GradesOwnRun.lastEnd_ne {ended : Outcome}
    (last : lastEnd (earlier ++ [outcome]) test = some ended)
    : ended.text ≠ "" := by
  intro empty
  obtain ⟨ends, other, member, same⟩ := exists_of_lastEnd last
  have written : other test ≠ .dies := same ▸ ends
  obtain ⟨directory, found⟩ := exists_directory initially member written
  have reached := found ▸ reached_plain initially earlier outcome
  refine own.no_empty_verdict initially split failed found (.inl (.inr ⟨other, member, written⟩)) ?_
  exact (reached.verdict_iff test "").mpr (.inl ⟨ended, last, empty.symm⟩)

/-- While a file that stops the script remains, an empty result file can stay empty. -/
theorem GradesOwnRun.blocked (blocks : Blocks platform start.xml (earlier ++ [outcome]))
    : start.results test.text ≠ some "" ∧ ∀ before ∈ earlier, before test ≠ .passes := by
  obtain ⟨file, remains, stops⟩ := blocks
  let stop := Invocation.stopping platform test file.1
  have ends : (stop outcome).outcome = outcome := rfl
  constructor
  · intro empty
    have untouched : (treeAfter platform start []).results test.text = some "" := empty
    have kept : (treeAfter platform start ([] ++ (earlier ++ [outcome]).map stop)).results
          test.text
        = some "" :=
      treeAfter_stopping initially stops untouched (earlier ++ [outcome]) remains
    refine own.ne_empty split failed (map_stopping platform test file.1 earlier) ends ?_
    rwa [List.nil_append, List.map_append] at kept
  · -- the empty file of the earlier pass can stay
    intro before member passed
    obtain ⟨first, between, rfl⟩ := List.append_of_mem member
    have ended : before test ≠ .dies := by simp [passed]
    have last : before ∈ first ++ [before] := by simp
    obtain ⟨directory, found⟩ := exists_directory initially last ended
    have reached := found ▸ reached_plain initially first before
    have verdict : Verdict platform directory (.result test.text) "" := by
      refine (reached.verdict_iff test "").mpr (.inl ⟨.passes, ?_, rfl⟩)
      rw [lastEnd_concat, if_neg ended, passed]
    have whole : first ++ before :: between ++ [outcome]
        = (first ++ [before]) ++ (between ++ [outcome]) := by
      simp
    rw [whole] at remains
    obtain ⟨listing, order, listed, emptied⟩ := (reached.outward initially).canEmpty verdict
      (reached.not_complete ⟨file, remains.of_append, stops⟩)
    obtain ⟨invocation, rfl, rfl, rfl⟩ := exists_invocation before listed order
    let run := first.map Invocation.plain ++ [invocation]
    have ran : run.map Invocation.outcome = first ++ [invocation.outcome] := by
      rw [List.map_append, map_plain, List.map_singleton]
    have empty : (treeAfter platform start run).results test.text = some "" := by
      rw [treeAfter_concat, Invocation.results_of_some found]
      exact emptied _
    have kept : (treeAfter platform start (run ++ (between ++ [outcome]).map stop)).results
          test.text
        = some "" :=
      treeAfter_stopping initially stops empty (between ++ [outcome]) (ran.symm ▸ remains)
    have all : (run ++ between.map stop).map Invocation.outcome
        = first ++ invocation.outcome :: between := by
      rw [List.map_append, ran, map_stopping, List.append_assoc, List.singleton_append]
    refine own.ne_empty split failed all ends ?_
    rwa [List.map_append, ← List.append_assoc] at kept

/-- A test that dies at once keeps its empty result file, unless something is written to it. -/
theorem GradesOwnRun.untouched (first : earlier = []) (dies : outcome test = .dies)
    (empty : start.results test.text = some "")
    : (start.xml ≠ none ∨ ∃ other, outcome other ≠ .dies)
      ∧ (HasReport start.xml [outcome] test
        → ∃ text, RemainingVerdict platform start.xml [outcome] test text) := by
  subst first
  have free : ¬ Blocks platform start.xml ([] ++ [outcome]) := fun blocks =>
    (own.blocked initially split failed blocks).1 empty
  let invocation := Invocation.plain outcome
  have ends : invocation.outcome = outcome := rfl
  have kept := own.ne_empty split failed (map_plain []) ends
  rw [treeAfter_concat] at kept
  have reached := reached_plain initially [] outcome
  cases found : runAll outcome start.xml with
  | none =>
      rw [Invocation.results_of_none found] at kept
      exact absurd empty kept
  | some directory =>
      have exists_ : start.xml ≠ none ∨ ∃ other, outcome other ≠ .dies := by
        by_contra neither
        push Not at neither
        cases found.symm.trans ((runAll_eq_none outcome start.xml).mpr neither)
      refine ⟨exists_, fun hasReport => ?_⟩
      by_contra undecided
      have reached : Reached start.xml [outcome] (some directory) := found ▸ reached
      have complete := own.complete initially split reached free
      have reported : Reported platform directory test :=
        .inl ((reached.mem_names_iff test).mpr hasReport)
      have listed := invocation.listed directory
      rw [Invocation.results_of_some found,
        (main_result complete (reached.outward initially).separate listed _).2 reported] at kept
      rcases pass_leaves .inserted listed test.text start.results
        with ⟨text, verdict, -⟩ | ⟨-, same⟩
      · rcases (reached.verdict_iff test text).mp verdict with ⟨ended, last, -⟩ | remains
        · cases (lastEnd_eq_none_iff.mpr (by simpa using dies)).symm.trans last
        · exact undecided ⟨text, remains⟩
      · exact kept (same.trans empty)

/-- Each condition is necessary. -/
theorem GradesOwnRun.ownVerdict : OwnVerdict platform start earlier outcome test := by
  have reached := reached_plain initially earlier outcome
  have remaining {text : String}
      (remains : RemainingVerdict platform start.xml (earlier ++ [outcome]) test text)
      : ∃ directory, runAll outcome (treeAfter platform start (earlier.map .plain)).xml
          = some directory
        ∧ Verdict platform directory (.result test.text) text := by
    obtain ⟨directory, found⟩ := Option.ne_none_iff_exists'.mp fun none => by
      obtain ⟨noStart, -⟩ := reached.missing.mp none
      obtain ⟨file, ⟨member, -⟩, -⟩ := remains
      rw [noStart] at member
      cases member
    rw [found] at reached
    exact ⟨directory, found, (reached.verdict_iff test text).mpr (.inr remains)⟩
  refine ⟨fun text fails => ⟨?_, own.ascii initially outcome (split ▸ by simp) test text fails⟩,
    fun dies passed => ?_, fun text remains => ?_, fun left remains => ?_,
    own.blocked initially split failed, own.untouched initially split failed⟩
  · have last : lastEnd (earlier ++ [outcome]) test = some (.fails text) := by
      rw [lastEnd_concat, if_neg (by simp [fails]), fails]
    exact own.lastEnd_ne initially split failed last
  · have last : lastEnd (earlier ++ [outcome]) test = some .passes := by
      rw [lastEnd_concat, if_pos dies, passed]
    exact own.lastEnd_ne initially split failed last rfl
  · obtain ⟨directory, found, verdict⟩ := remaining remains
    by_contra unwritten
    exact own.not_canEmpty split failed found (canEmpty_of_unwritten verdict unwritten)
  · obtain ⟨directory, found, verdict⟩ := remaining remains
    exact own.no_empty_verdict initially split failed found left verdict

end Necessary

/-- Neither reports nor result files. -/
def cleanTree : TestTree := ⟨none, fun _ => none⟩

end PMKVLab.Grading
