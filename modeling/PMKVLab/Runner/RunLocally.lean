import PMKVLab.Runner.ApplyOptions

/-! `run_submission_locally`: the directory, the specification in it, the options, the input
files, the command under its environment, the output files, and the handler around them.
-/

namespace PMKVLab.Runner

open PMKVLab.Library
open Program (lift raise gets modify attempt ensure zoom)

/-- The class of `BadOptionException`. -/
def badOptionException : ExceptionClass := .named "BadOptionException"

namespace Submission

/-- The keys of a dictionary as an error message prints them. -/
def printedKeys (interpreter : Interpreter) (table : Py) : Except Raised String := do
  let entries ← table.entriesOf "keys"
  return interpreter.repr (.list (entries.map (.str ·.1)))

/-- One round of the validating loop of `parse_options`. -/
def checkOption (interpreter : Interpreter) (validOptions : Py) (option : String × Py)
    : Except Raised Unit := do
  let (k, v) := option
  if !(← validOptions.contains (.str k)) then
    .error ⟨badOptionException, "Illegal user option '" ++ k ++ "'. Valid options are "
      ++ (← printedKeys interpreter validOptions)⟩
  let valid ← validOptions.getItem (.str k)
  if valid.callable then
    return
  if !(← valid.contains v) then
    .error ⟨badOptionException, "Illegal value '" ++ interpreter.str v
      ++ "' for user options '" ++ k ++ "'. Valid values are "
      ++ (← printedKeys interpreter valid)⟩
  -- the log message looks the binding up
  let _ ← valid.getItem v

/-- The two items of an element of a sequence that `dict.update` reads. -/
def pairOf (element : Py) : Except Raised (String × Py) := do
  match ← element.iterate with
  | [.str key, value] => return (key, value)
  | [_, _] => .error ⟨.typeError, "keywords must be strings"⟩
  | items => .error ⟨.valueError, "dictionary update sequence element has length "
      ++ toString items.length ++ "; 2 is required"⟩

/-- `self.env.update(bindings)`. -/
def updateEnvWith (bindings : Py) : Program Raised Submission Unit := do
  let assign (key : String) (value : Py) : Program Raised Submission Unit := do
    let entries ← lift ((← gets Submission.env).entriesOf "update")
    modify fun sub => { sub with env := .dict (setItem key value entries) }
  match bindings with
  | .dict entries => entries.forM fun entry => assign entry.1 entry.2
  | sequence =>
      (← lift sequence.iterate).forM fun element => do
        let (key, value) ← lift (pairOf element)
        assign key value

/-- `update_env` of `parse_options`; `call` is what the functions of `lab.py` return. -/
def updateEnv (call : Nat → Py → Except Raised Py) (validOptions : Py)
    (option : String × Py)
    : Program Raised Submission Unit := do
  let (k, v) := option
  let valid ← lift (validOptions.getItem (.str k))
  let _ ← lift ((← gets Submission.env).entriesOf "update")
  match valid with
  | .function identity => updateEnvWith (← lift (call identity v))
  | table => updateEnvWith (← lift (table.getItem v))

/-- `parse_options`: every option is checked before any of them changes `env`. -/
def parseOptions (interpreter : Interpreter) (call : Nat → Py → Except Raised Py)
    : Program Raised Submission Unit := do
  let labSpec ← gets Submission.labSpec
  let validOptions := labSpec .validOptions
  let options ← lift ((← gets Submission.options).entriesOf "items")
  let defaults ← lift ((labSpec .defaultOptions).entriesOf "items")
  (options ++ defaults).forM fun option => lift (checkOption interpreter validOptions option)
  options.forM (updateEnv call validOptions)
  defaults.forM fun option => do
    if options.lookup option.1 |>.isNone then
      updateEnv call validOptions option

end Submission

-----------------------------------------------------------------------------------------
-- The outside world
-----------------------------------------------------------------------------------------

abbrev Environ : Type := List (String × String)

/-- How a process ended. -/
inductive Ending
  | exited (code : Int)
  | timedOut
deriving DecidableEq, Repr

/-- What a run meets outside the runner: the file system, the processes it starts and the
code of `lab.py`. A `Tree` is the state of the files that the run can reach.
-/
structure World where
  Tree : Type
  /-- The directory `root` and its absolute path. -/
  root : Tree
  rootName : String
  /-- `tempfile.TemporaryDirectory(dir="/tmp/")`, its path and its removal. -/
  temporaryDirectory : Except Raised Tree
  temporaryName : String
  cleanup : Tree → Except Raised Unit
  /-- `git clone repo dirname`, whatever its exit code. -/
  clone : Py → Tree → Except Raised Tree
  /-- Importing `lab.py`: its attributes or its exception, and the files it leaves. -/
  labInfo : Tree → Except Raised (String → Option Py) × Tree
  /-- Calling a function that `lab.py` defines. -/
  call : Nat → Py → Except Raised Py
  /-- The commands that `apply_options` runs. -/
  commands : Submission.Commands
  /-- Opening a file for writing and writing a text. -/
  write : Tree → String → String → Except Raised Tree
  /-- Reading a path; `none` when it names no existing file. -/
  read : Tree → String → Option (Except Raised String)
  /-- Running a command: its working directory, the files, its environment, its time limit. -/
  execute : Py → Option String → Tree → Environ → Py → Except Raised (Ending × Tree)
  /-- The environment assignments that the platform takes. -/
  accepts : String → String → Bool
  /-- What `traceback.print_exc` prints after its first line. -/
  traceback : Raised → String
  /-- Whether the log level is `INFO` or below. -/
  verbose : Bool

/-- The class constants of `SubmissionResult`. -/
inductive Status
  | success
  | timeout
  | missingOutput
  | error
deriving DecidableEq, Repr

def Status.text : Status → String
  | .success => "success"
  | .timeout => "timeout"
  | .missingOutput => "missing_output"
  | .error => "error"

/-- The start of a command: what it is, where and on which files it runs, its environment
and its time limit.
-/
structure Execution (world : World) where
  command : Py
  cwd : Option String
  tree : world.Tree
  environ : Environ
  timeout : Py

/-- The variables of `run_submission_locally`, the process environment, the files, and the
commands started so far.
-/
structure RunState (world : World) where
  sub : Submission
  tree : world.Tree
  environ : Environ
  out : String := ""
  err : String := ""
  resultFiles : List (String × String) := []
  status : Status := .error
  executed : List (Execution world) := []

def RunState.withTree {world : World} (state : RunState world) (tree : world.Tree)
    : RunState world :=
  { state with tree := tree }

abbrev Running (world : World) : Type → Type := Program Raised (RunState world)

/-- The arguments of `run_submission_locally` that choose where the command runs, and
whether the options are applied to the machine first.
-/
structure RunFlags where
  runInDocker : Bool := false
  runPristine : Bool := false
  applyOptions : Bool := false

variable {world : World}

-----------------------------------------------------------------------------------------
-- The steps of the try block
-----------------------------------------------------------------------------------------

/-- The `directory` of a pristine run, removed at the end. -/
def inTemporaryDirectory {Value : Type} (body : Running world Value) : Running world Value := do
  let tree ← lift world.temporaryDirectory
  modify (·.withTree tree)
  ensure body do
    lift (world.cleanup (← gets RunState.tree))

/-- The temporary directory is there before the body runs and goes after it. -/
theorem inTemporaryDirectory_run {Value : Type} (body : Running world Value)
    (state : RunState world)
    : (inTemporaryDirectory body).run state
      = match world.temporaryDirectory with
        | .error raised => (.error raised, state)
        | .ok tree =>
            let ended := body.run (state.withTree tree)
            match world.cleanup ended.2.tree with
            | .ok _ => ended
            | .error raised => (.error raised, ended.2) := by
  simp only [inTemporaryDirectory, Program.run_bind, Program.run_lift, Program.run_modify,
    Program.run_ensure, Program.run_gets]
  cases world.temporaryDirectory with
  | error raised => rfl
  | ok tree =>
      dsimp only
      cases world.cleanup (body.run (state.withTree tree)).2.tree <;> rfl

/-- `directory`. -/
def directory (pristine : Bool) {Value : Type} (body : Running world Value)
    : Running world Value :=
  if pristine then inTemporaryDirectory body
  else do
    modify (·.withTree world.root)
    body

/-- `log_run(cmd=['git', 'clone', repo, dirname])`; its exit code is not looked at. -/
def cloneRepo (repo : Py) : Running world Unit := do
  let tree ← lift (world.clone repo (← gets RunState.tree))
  modify (·.withTree tree)

/-- Cloning changes nothing but the files. -/
theorem cloneRepo_run (repo : Py) (state : RunState world)
    : (cloneRepo repo).run state
      = match world.clone repo state.tree with
        | .error raised => (.error raised, state)
        | .ok tree => (.ok (), state.withTree tree) := by
  simp only [cloneRepo, Program.run_bind, Program.run_gets, Program.run_lift]
  cases world.clone repo state.tree <;> rfl

/-- The argument that `LabSpec.load` finds for a field. -/
def LabSpec.argumentOf (attributes : String → Option Py) (field : Field)
    : Except Raised (String × Py) :=
  match (attributes field.name).or field.default with
  | some value => .ok (field.name, value)
  | none => .error ⟨.exception, "Your lab spec is missing '" ++ field.name ++ "'"⟩

/-- The specification that `LabSpec.load` builds from the attributes of `lab.py`. -/
def LabSpec.ofAttributes (attributes : String → Option Py) : Except Raised LabSpec := do
  let args ← Field.loaded.mapM (LabSpec.argumentOf attributes)
  LabSpec.construct args

/-- `LabSpec.load` on the current directory. -/
def LabSpec.load : Running world LabSpec := do
  let (imported, tree) := world.labInfo (← gets RunState.tree)
  modify (·.withTree tree)
  lift (LabSpec.ofAttributes (← lift imported))

/-- The specification in a directory. -/
def loadedFrom (world : World) (tree : world.Tree) : Except Raised LabSpec := do
  LabSpec.ofAttributes (← (world.labInfo tree).1)

/-- Loading changes nothing but the files. -/
theorem load_run (state : RunState world)
    : LabSpec.load.run state
      = (loadedFrom world state.tree, state.withTree (world.labInfo state.tree).2) := by
  unfold loadedFrom
  simp only [LabSpec.load, Program.run_bind, Program.run_gets, Program.run_modify,
    Program.run_lift]
  cases (world.labInfo state.tree).1 <;> rfl

/-- The specification in the directory, after cloning the submitted repository into it. -/
def fetchSpec (flags : RunFlags) : Running world LabSpec := do
  if flags.runPristine then
    let submitted ← gets (·.sub.labSpec)
    cloneRepo (submitted .repo)
  LabSpec.load

/-- `os.path.join(dirname, name)` needs a text. -/
def pathOf (name : Py) : Except Raised String :=
  name.text "join() argument must be str, bytes, or os.PathLike object"

/-- Write one submitted file into the fresh clone; opening it empties it first. -/
def writeInputFile (f : Py) : Running world Unit := do
  let path ← lift (pathOf f)
  let opened ← lift (world.write (← gets RunState.tree) path "")
  modify (·.withTree opened)
  let contents ← lift ((← gets (·.sub.files)).getItem f)
  let text ← lift (contents.text "write() argument must be str")
  let written ← lift (world.write (← gets RunState.tree) path text)
  modify (·.withTree written)

/-- `log_run`. The process inherits the standard streams, so `communicate` returns no
output; the exit code is not looked at.
-/
def logRun (command : Py) (cwd : Option String) (timeout : Py) : Running world Status := do
  let tree ← gets RunState.tree
  let environ ← gets RunState.environ
  modify fun state =>
    { state with executed := state.executed ++ [⟨command, cwd, tree, environ, timeout⟩] }
  let (ending, after) ← lift (world.execute command cwd tree environ timeout)
  modify (·.withTree after)
  return match ending with
    | .exited _ => .success
    | .timedOut => .timeout

/-- One assignment of `os.environ.update`. -/
def assignEnviron (entry : String × Py) : Running world Unit := do
  let value ← lift (entry.2.text "str expected")
  if world.accepts entry.1 value then
    modify fun state => { state with environ := setItem entry.1 value state.environ }
  else
    raise ⟨.valueError, "illegal environment variable"⟩

/-- `os.environ.clear()` and `os.environ.update(env)`: each variable is assigned anew. -/
def restoreEnviron (env : Environ) : Running world Unit := do
  modify fun state => { state with environ := [] }
  env.forM fun entry => assignEnviron (entry.1, .str entry.2)

/-- `with environment(**kwds)`. The update stands before the `try`, so what it assigned
before an exception stays.
-/
def environment (kwds : Py) {Value : Type} (body : Running world Value)
    : Running world Value := do
  let env ← gets RunState.environ
  (← lift kwds.unpack).forM assignEnviron
  ensure body (restoreEnviron env)

/-- The command line of a run in a container. -/
def dockerCommand (world : World) (dirname : String) : Py :=
  .list ((["docker", "run", "-it", "--privileged", "-v", dirname ++ ":/runner",
    "junokim8/mss-kv-lab-grader", "run.py", "--local", "--no-validate", "--apply-options"]
    ++ if world.verbose then ["-v"] else []).map .str)

/-- Run the command of the specification, or the container. -/
def runCommand (flags : RunFlags) (spec : LabSpec) : Running world Unit := do
  let dirname := if flags.runPristine then world.temporaryName else world.rootName
  let status ←
    if flags.runInDocker then
      logRun (dockerCommand world dirname) none (spec .timeLimit)
    else
      environment (← gets (·.sub.env)) (logRun (spec .runCmd) (some dirname) (spec .timeLimit))
  modify fun state => { state with status := status }

/-- Store one output file; a missing one turns success into `MISSING_OUTPUT`. -/
def collectOutput (i : Py) : Running world Unit := do
  if i.equal (.str "STDERR") || i.equal (.str "STDOUT") then
    return
  let path ← lift (pathOf i)
  match world.read (← gets RunState.tree) path with
  | some outcome =>
      let contents ← lift outcome
      modify fun state =>
        { state with resultFiles := setItem path contents state.resultFiles }
  | none =>
      modify fun state =>
        { state with
          resultFiles := setItem path "<This output file did not exist>" state.resultFiles
          status := if state.status = .success then .missingOutput else state.status }

/-- The steps between the loaded specification and the command. -/
def prepare (interpreter : Interpreter) (flags : RunFlags) (spec : LabSpec)
    : Running world Unit := do
  modify fun state => { state with sub := { state.sub with labSpec := spec } }
  zoom RunState.sub (fun sub state => { state with sub := sub }) do
    Submission.parseOptions interpreter world.call
    if flags.applyOptions then
      Submission.applyOptions interpreter world.commands
  if flags.runPristine then
    (← lift (spec .inputFiles).iterate).forM writeInputFile

/-- The loop over the output files. -/
def collectOutputs (spec : LabSpec) : Running world Unit := do
  (← lift (spec .outputFiles).iterate).forM collectOutput

/-- The part of the try block that works with the loaded specification. -/
def runLoaded (interpreter : Interpreter) (flags : RunFlags) (spec : LabSpec)
    : Running world Unit := do
  prepare interpreter flags spec
  runCommand flags spec
  collectOutputs spec

/-- The try block. -/
def tryBlock (interpreter : Interpreter) (flags : RunFlags) : Running world Unit :=
  directory flags.runPristine do
    let spec ← fetchSpec flags
    runLoaded interpreter flags spec

-----------------------------------------------------------------------------------------
-- run_submission_locally
-----------------------------------------------------------------------------------------

def executionFailed : String := "# Execution failed\n"

/-- What `traceback.print_exc` writes. -/
def printedTraceback (world : World) (raised : Raised) : String :=
  "Traceback (most recent call last):\n" ++ world.traceback raised

/-- The exception handlers: only ordinary exceptions other than bad options are handled. -/
def handle (raised : Raised) : Running world Unit := do
  if raised.kind = badOptionException || !raised.caught then
    raise raised
  else
    modify fun state =>
      { state with
        err := state.err ++ printedTraceback world raised ++ executionFailed
        out := state.out ++ executionFailed
        status := .error }

/-- `files` as the dictionary of texts that the result holds. -/
def filesDict (files : List (String × String)) : Py :=
  .dict (files.map fun file => (file.1, .str file.2))

/-- The statements after the try block. -/
def buildResult (interpreter : Interpreter) : Running world SubmissionResult := do
  modify fun state =>
    { state with
      resultFiles := setItem "STDERR" state.err (setItem "STDOUT" state.out state.resultFiles) }
  let state ← gets id
  lift ((SubmissionResult.init interpreter state.sub (filesDict state.resultFiles)
    (.str state.status.text)).run []).1

/-- `run_submission_locally`. -/
def runSubmissionLocally (interpreter : Interpreter) (flags : RunFlags)
    : Running world SubmissionResult := do
  let environ ← gets RunState.environ
  if environ.lookup "IN_DOCKER" = some "yes" ∧ flags.runInDocker ∧ ¬ flags.runPristine then
    raise ⟨.exception, "If you are running in docker, you can only use '--docker' with "
      ++ "'--pristine'.  '--local' won't work."⟩
  match ← (tryBlock interpreter flags).attempt with
  | .ok () => pure ()
  | .error raised => handle raised
  buildResult interpreter

/-- The state in which `run_submission_locally` starts. -/
def RunState.start (world : World) (environ : Environ) (sub : Submission) : RunState world where
  sub := sub
  tree := world.root
  environ := environ

end PMKVLab.Runner
