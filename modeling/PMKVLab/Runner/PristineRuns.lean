import PMKVLab.Runner.Wire
import PMKVLab.Runner.RunLocally

/-! What a pristine run takes from the specification in the submission: the repository that
is cloned, and the figures of a run that fails before the clone's own specification is
loaded.
-/

namespace PMKVLab.Runner

open PMKVLab.Library

/-- The arguments of a pristine run. -/
def pristine : RunFlags where
  runPristine := true

/-- What a run shows: the commands it started, with their files and environment, and the
files, status and figures it returned or the exception it raised.
-/
structure Observation (world : World) where
  executed : List (Execution world)
  result : Except Raised (Py × Py × Py)

/-- The observation of a finished run. -/
def observed {world : World} (run : Except Raised SubmissionResult × RunState world)
    : Observation world where
  executed := run.2.executed
  result := run.1.map fun result => (result.files, result.status, result.figuresOfMerit)

/-- What a pristine run of a submission shows. -/
def observe (interpreter : Interpreter) (world : World) (environ : Environ) (sub : Submission)
    : Observation world :=
  observed ((runSubmissionLocally interpreter pristine).run (.start world environ sub))

/-- No pristine run tells a submission with the first specification from the same submission
with the second.
-/
def Indistinguishable (interpreter : Interpreter) (first second : LabSpec) : Prop :=
  ∀ world environ files env options,
    observe interpreter world environ ⟨first, files, env, options⟩
    = observe interpreter world environ ⟨second, files, env, options⟩

variable {world : World}

/-- The state with another specification in its submission. -/
def RunState.withSpec (state : RunState world) (spec : LabSpec) : RunState world :=
  { state with sub := { state.sub with labSpec := spec } }

-----------------------------------------------------------------------------------------
-- Before the specification is loaded
-----------------------------------------------------------------------------------------

/-- Cloning and loading: the specification or an exception, and the files either way. -/
def fetched (world : World) (repo : Py) (tree : world.Tree)
    : Except Raised LabSpec × world.Tree :=
  match world.clone repo tree with
  | .error raised => (.error raised, tree)
  | .ok cloned => (loadedFrom world cloned, (world.labInfo cloned).2)

/-- Cloning and loading change nothing but the files. -/
theorem fetchSpec_run (spec : LabSpec) (state : RunState world)
    : (fetchSpec pristine).run (state.withSpec spec)
      = ((fetched world (spec .repo) state.tree).1,
          (state.withTree (fetched world (spec .repo) state.tree).2).withSpec spec) := by
  change (do cloneRepo (spec .repo); LabSpec.load : Running world LabSpec).run
    (state.withSpec spec) = _
  have files : (state.withSpec spec).tree = state.tree := rfl
  rw [Program.run_bind, cloneRepo_run, files, fetched]
  cases world.clone (spec .repo) state.tree with
  | error raised => rfl
  | ok tree => exact load_run ((state.withTree tree).withSpec spec)

/-- The work on a loaded specification starts by putting it in the submission. -/
theorem runLoaded_withSpec (interpreter : Interpreter) (flags : RunFlags) (loaded spec : LabSpec)
    (state : RunState world)
    : (runLoaded interpreter flags loaded).run (state.withSpec spec)
      = (runLoaded interpreter flags loaded).run state :=
  rfl

/-- Up to the loaded specification only the repository matters, and from there on nothing of
the submitted specification does.
-/
theorem fetchSpec_runLoaded (interpreter : Interpreter) (spec : LabSpec)
    (state : RunState world)
    : (fetchSpec pristine >>= runLoaded interpreter pristine).run (state.withSpec spec)
      = match fetched world (spec .repo) state.tree with
        | (.error raised, tree) => (.error raised, (state.withTree tree).withSpec spec)
        | (.ok loaded, tree) =>
            (runLoaded interpreter pristine loaded).run (state.withTree tree) := by
  rw [Program.run_bind, fetchSpec_run]
  rcases fetched world (spec .repo) state.tree with ⟨outcome | outcome, tree⟩
  · rfl
  · exact runLoaded_withSpec interpreter pristine outcome spec (state.withTree tree)

/-- Two runs of the try block from states that differ only in the submitted specification
are the same run, or both raise the same exception with nothing done yet.
-/
theorem tryBlock_alike (interpreter : Interpreter) (state : RunState world)
    {first second : LabSpec} (repo : first .repo = second .repo)
    : (tryBlock interpreter pristine).run (state.withSpec first)
        = (tryBlock interpreter pristine).run (state.withSpec second)
      ∨ ∃ raised tree,
        (tryBlock interpreter pristine).run (state.withSpec first)
          = (.error raised, (state.withTree tree).withSpec first)
        ∧ (tryBlock interpreter pristine).run (state.withSpec second)
          = (.error raised, (state.withTree tree).withSpec second) := by
  have unfolded (spec : LabSpec)
      : (tryBlock interpreter pristine).run (state.withSpec spec)
        = (inTemporaryDirectory (fetchSpec pristine >>= runLoaded interpreter pristine)).run
            (state.withSpec spec) :=
    rfl
  rw [unfolded, unfolded, inTemporaryDirectory_run, inTemporaryDirectory_run]
  cases world.temporaryDirectory with
  | error raised => exact .inr ⟨raised, state.tree, rfl, rfl⟩
  | ok tree =>
      have moved (spec : LabSpec)
          : (state.withSpec spec).withTree tree = (state.withTree tree).withSpec spec :=
        rfl
      dsimp only
      simp only [moved, fetchSpec_runLoaded, repo]
      rcases fetched world (second .repo) (state.withTree tree).tree with ⟨raised | loaded, after⟩
      · have kept (spec : LabSpec) : (((state.withTree tree).withTree after).withSpec spec).tree
            = after :=
          rfl
        simp only [kept]
        cases world.cleanup after with
        | error removal => exact .inr ⟨removal, after, rfl, rfl⟩
        | ok _ => exact .inr ⟨raised, after, rfl, rfl⟩
      · exact .inl rfl

/-- What follows the try block, from its outcome and the state it left. -/
def conclude (interpreter : Interpreter) (ended : Except Raised Unit × RunState world)
    : Except Raised SubmissionResult × RunState world :=
  (do
    match ended.1 with
    | .ok () => pure ()
    | .error raised => handle raised
    buildResult interpreter : Running world SubmissionResult).run ended.2

/-- A run that is not refused is its try block and what follows it. -/
theorem runSubmissionLocally_run (interpreter : Interpreter) {flags : RunFlags}
    {state : RunState world}
    (allowed : ¬ (state.environ.lookup "IN_DOCKER" = some "yes"
      ∧ flags.runInDocker ∧ ¬ flags.runPristine))
    : (runSubmissionLocally interpreter flags).run state
      = conclude interpreter ((tryBlock interpreter flags).run state) := by
  unfold runSubmissionLocally
  rw [Program.run_bind_of_ok (Program.run_gets state RunState.environ)]
  rw [if_neg allowed]
  rfl

/-- A pristine run is never refused. -/
theorem runSubmissionLocally_pristine (interpreter : Interpreter) (state : RunState world)
    : (runSubmissionLocally interpreter pristine).run state
      = conclude interpreter ((tryBlock interpreter pristine).run state) :=
  runSubmissionLocally_run interpreter (by simp [pristine])

/-- The files of a run that failed before its command. -/
def failedFiles (traceback : String) : Py :=
  filesDict [("STDOUT", executionFailed),
    ("STDERR", "Traceback (most recent call last):\n" ++ traceback ++ executionFailed)]

/-- The files and the figures that the constructor makes of a run of the submission that
failed before its command, or the exception of a figure.
-/
def failedFigures (interpreter : Interpreter) (sub : Submission) (traceback : String)
    : Except Raised (Py × List Py) :=
  ((computeFigures interpreter sub (failedFiles traceback) (.str "error")).run []).1.map
    fun after => (after.files, after.r)

/-- The specifications give the same files and figures for every submission whose run failed
before its command.
-/
def SameFailedFigures (interpreter : Interpreter) (first second : LabSpec) : Prop :=
  ∀ files env options traceback,
    failedFigures interpreter ⟨first, files, env, options⟩ traceback
    = failedFigures interpreter ⟨second, files, env, options⟩ traceback

/-- The result is built from both streams and the files collected so far. -/
theorem observed_buildResult (interpreter : Interpreter) (state : RunState world)
    : observed ((buildResult interpreter).run state)
      = ⟨state.executed, ((SubmissionResult.init interpreter state.sub
          (filesDict (setItem "STDERR" state.err (setItem "STDOUT" state.out state.resultFiles)))
          (.str state.status.text)).run []).1.map
            fun result => (result.files, result.status, result.figuresOfMerit)⟩ :=
  rfl

/-- A run that raises before its command shows its exception, or the figures of the
submitted specification when the exception is handled.
-/
theorem observed_conclude_error (interpreter : Interpreter) (environ : Environ)
    (sub : Submission) (raised : Raised) (tree : world.Tree)
    : observed (conclude interpreter
        (.error raised, (RunState.start world environ sub).withTree tree))
      = if raised.kind = badOptionException || !raised.caught then ⟨[], .error raised⟩
        else ⟨[], (failedFigures interpreter sub (world.traceback raised)).map
          fun shown => (shown.1, .str "error", .list shown.2)⟩ := by
  unfold conclude handle
  dsimp only
  split
  · rfl
  · rw [Program.run_bind_of_ok (Program.run_modify _ _), observed_buildResult,
      SubmissionResult.init_outcome]
    have files
        : filesDict (setItem "STDERR" ("" ++ printedTraceback world raised ++ executionFailed)
            (setItem "STDOUT" ("" ++ executionFailed) []))
          = failedFiles (world.traceback raised) := by
      rw [String.empty_append, String.empty_append]
      rfl
    simp only [RunState.withTree, RunState.start, files, failedFigures, Status.text]
    cases ((computeFigures interpreter sub (failedFiles (world.traceback raised))
      (.str "error")).run []).1 <;> rfl

/-- Specifications with the same repository whose figures of a failed run agree cannot be
told apart. Witness: the two try blocks are one run, or raise the same exception before the
loaded specification replaces the submitted one.
-/
theorem indistinguishable_of_same_repo {interpreter : Interpreter} {first second : LabSpec}
    (repo : first .repo = second .repo) (figures : SameFailedFigures interpreter first second)
    : Indistinguishable interpreter first second := by
  intro world environ files env options
  have started (spec : LabSpec)
      : observe interpreter world environ ⟨spec, files, env, options⟩
        = observed (conclude interpreter ((tryBlock interpreter pristine).run
            ((RunState.start world environ ⟨first, files, env, options⟩).withSpec spec))) := by
    unfold observe
    rw [runSubmissionLocally_pristine]
    rfl
  rw [started first, started second]
  rcases tryBlock_alike interpreter _ repo with same | ⟨raised, tree, one, other⟩
  · rw [same]
  · rw [one, other]
    have failed (spec : LabSpec)
        := observed_conclude_error interpreter environ ⟨spec, files, env, options⟩ raised tree
    refine (failed first).trans (Eq.trans ?_ (failed second).symm)
    rw [figures]

-----------------------------------------------------------------------------------------
-- Telling specifications apart
-----------------------------------------------------------------------------------------

/-- A command that shows an answer. -/
def answerCommand (answer : Bool) : Py :=
  .list [.str (if answer then "true" else "false")]

theorem answerCommand_injective : Function.Injective answerCommand := by
  intro first second same
  cases first <;> cases second <;> simp_all [answerCommand]

/-- What `lab.py` defines in a world whose trees are answers. -/
def answerLab (answer : Bool) : String → Option Py
  | "run_cmd" => some (answerCommand answer)
  | "output_files" => some (.list [])
  | "input_files" => some (.list [])
  | "repo" => some .none
  | "reference_tag" => some .none
  | _ => none

/-- A world in which cloning a repository leaves the answer to a question about it. -/
def answering (answer : Py → Bool) : World where
  Tree := Bool
  root := false
  rootName := "/lab"
  temporaryDirectory := .ok false
  temporaryName := "/tmp/lab"
  cleanup _ := .ok ()
  clone repo _ := .ok (answer repo)
  labInfo tree := (.ok (answerLab tree), tree)
  call _ _ := .ok .none
  commands := ⟨fun _ => .ok 1, fun _ => .ok ""⟩
  write tree _ _ := .ok tree
  read _ _ := none
  execute _ _ tree _ _ := .ok (.exited 0, tree)
  accepts _ _ := true
  traceback _ := ""
  verbose := false

/-- A world in which `lab.py` always raises. -/
def raising (traceback : String) : World :=
  { answering (fun _ => false) with
    labInfo := fun tree => (.error ⟨.exception, ""⟩, tree)
    traceback := fun _ => traceback }

/-- The command of a run shows the answer for the submitted repository. -/
theorem observe_answering (interpreter : Interpreter) (answer : Py → Bool) (spec : LabSpec)
    : (observe interpreter (answering answer) [] ⟨spec, .dict [], .dict [], .dict []⟩).executed.map
        Execution.command
      = [answerCommand (answer (spec .repo))] :=
  rfl

/-- In a world whose `lab.py` raises, a run shows the figures of the submitted specification.
-/
theorem observe_raising (interpreter : Interpreter) (traceback : String) (sub : Submission)
    : observe interpreter (raising traceback) [] sub
      = ⟨[], (failedFigures interpreter sub traceback).map
          fun shown => (shown.1, .str "error", .list shown.2)⟩ := by
  have raised
      : (tryBlock interpreter pristine).run (RunState.start (raising traceback) [] sub)
        = (.error ⟨.exception, ""⟩,
            (RunState.start (raising traceback) [] sub).withTree (raising traceback).root) :=
    rfl
  unfold observe
  rw [runSubmissionLocally_pristine, raised, observed_conclude_error]
  rfl

/-- The plain specification with another repository. -/
def forgedSpec : LabSpec :=
  (plainSpec (.list [])).replace .repo (.str "forged.git")

/-- Whether a repository is the one of the plain specification. -/
def isPlainRepo : Py → Bool
  | .str "lab.git" => true
  | _ => false

end PMKVLab.Runner
