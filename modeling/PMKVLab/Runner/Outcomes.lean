import PMKVLab.Runner.EnvironmentRestoration
import PMKVLab.Runner.FailingRuns

/-! The status and the files of a run whose try block does not raise: what the command, the
loop over the output files and the statements after it make of them.
-/

namespace PMKVLab.Runner

open PMKVLab.Library

variable {world : World}

-----------------------------------------------------------------------------------------
-- The command
-----------------------------------------------------------------------------------------

/-- The status that `log_run` returns for an ending. -/
def Ending.status : Ending → Status
  | .exited _ => .success
  | .timedOut => .timeout

/-- The command ended so and left these files. -/
def Execution.Ended (execution : Execution world) (ending : Ending) (after : world.Tree) : Prop :=
  world.execute execution.command execution.cwd execution.tree execution.environ
    execution.timeout = .ok (ending, after)

theorem logRun_ok {command : Py} {cwd : Option String} {timeout : Py}
    {state ended : RunState world} {status : Status}
    (run : (logRun command cwd timeout).run state = (.ok status, ended))
    : ∃ execution ending after, execution.command = command
      ∧ execution.Ended ending after
      ∧ status = ending.status
      ∧ ended = { state with executed := state.executed ++ [execution], tree := after } := by
  unfold logRun at run
  rw [Program.run_bind_of_ok (Program.run_gets _ _), Program.run_bind_of_ok (Program.run_gets _ _),
    Program.run_bind_of_ok (Program.run_modify _ _)] at run
  obtain ⟨⟨ending, after⟩, executed, run⟩ := Program.run_lift_bind_eq_ok.mp run
  refine ⟨⟨command, cwd, state.tree, state.environ, timeout⟩, ending, after, rfl,
    executed, ?_⟩
  cases run
  cases ending <;> exact ⟨rfl, rfl⟩

/-- `environment` changes nothing but the environment around its body. -/
theorem environment_ok {Value : Type} {kwds : Py} {body : Running world Value}
    {state ended : RunState world} {value : Value}
    (run : (environment kwds body).run state = (.ok value, ended))
    : ∃ during middle afterwards, body.run { state with environ := during } = (.ok value, middle)
      ∧ ended = { middle with environ := afterwards } := by
  unfold environment at run
  rw [Program.run_bind_of_ok (Program.run_gets _ _)] at run
  obtain ⟨entries, _, run⟩ := Program.run_lift_bind_eq_ok.mp run
  obtain ⟨_, updated, update, run⟩ := Program.run_bind_eq_ok.mp run
  obtain ⟨outcome, same, _⟩ := update_run entries state
  have assigns : updated = { state with environ := assigned world entries state.environ } :=
    congrArg Prod.snd (update.symm.trans same)
  rw [Program.run_ensure] at run
  obtain ⟨restored, restores⟩ := restoreEnviron_run state.environ (body.run updated).2
  rw [restores] at run
  cases restored with
  | error raised => cases run
  | ok _ =>
      subst assigns
      obtain ⟨value, rest⟩ := Prod.mk.inj run
      exact ⟨_, _, _, Prod.ext value rfl, rest.symm⟩

/-- The command of a run: the container, or the command of the specification. -/
def commandOf (world : World) (flags : RunFlags) (spec : LabSpec) : Py :=
  if flags.runInDocker then
    dockerCommand world (if flags.runPristine then world.temporaryName else world.rootName)
  else spec .runCmd

/-- The command runs once, in its environment or in a container, and its ending gives the
status.
-/
theorem runCommand_ok {flags : RunFlags} {spec : LabSpec} {state ended : RunState world}
    (run : (runCommand flags spec).run state = (.ok (), ended))
    : ∃ execution ending after environ, execution.command = commandOf world flags spec
      ∧ execution.Ended ending after
      ∧ ended = { state with
          environ := environ
          executed := state.executed ++ [execution]
          tree := after
          status := ending.status } := by
  unfold runCommand at run
  cases docker : flags.runInDocker with
  | true =>
      rw [docker, if_pos rfl] at run
      obtain ⟨status, middle, logged, run⟩ := Program.run_bind_eq_ok.mp run
      obtain ⟨execution, ending, after, command, executed, rfl, rfl⟩ := logRun_ok logged
      cases run
      exact ⟨execution, ending, after, _, by simp [command, commandOf, docker], executed, rfl⟩
  | false =>
      rw [docker, if_neg Bool.false_ne_true, Program.run_bind_of_ok (Program.run_gets _ _)] at run
      obtain ⟨status, middle, surrounded, run⟩ := Program.run_bind_eq_ok.mp run
      obtain ⟨during, between, afterwards, logged, rfl⟩ := environment_ok surrounded
      obtain ⟨execution, ending, after, command, executed, rfl, rfl⟩ := logRun_ok logged
      cases run
      exact ⟨execution, ending, after, afterwards, by simp [command, commandOf, docker], executed,
        rfl⟩

-----------------------------------------------------------------------------------------
-- The output files
-----------------------------------------------------------------------------------------

/-- The two names that stand for the streams. -/
def streams : List String := ["STDERR", "STDOUT"]

def missingText : String := "<This output file did not exist>"

/-- A named output that is not a stream does not exist. -/
def isMissing (world : World) (tree : world.Tree) (name : String) : Bool :=
  decide (name ∉ streams) && (world.read tree name).isNone

/-- What is stored under the name of an output. -/
def storedText (world : World) (tree : world.Tree) (name : String) : String :=
  match world.read tree name with
  | some (.ok contents) => contents
  | _ => missingText

/-- `MISSING_OUTPUT` takes the place of success only. -/
def Status.afterOutputs (status : Status) (missing : Bool) : Status :=
  if status = .success ∧ missing then .missingOutput else status

theorem Status.afterOutputs_or (status : Status) (first later : Bool)
    : (status.afterOutputs first).afterOutputs later = status.afterOutputs (first || later) := by
  cases status <;> cases first <;> cases later <;> rfl

/-- One round of the loop skips a stream and stores any other output. -/
inductive Collected (state : RunState world) (name : String) : RunState world → Prop
  | skipped (stream : name ∈ streams) : Collected state name state
  | stored (other : name ∉ streams)
    : Collected state name
        { state with
          resultFiles := setItem name (storedText world state.tree name) state.resultFiles
          status := state.status.afterOutputs (isMissing world state.tree name) }

/-- A round that does not raise has a text as its name. -/
theorem collectOutput_ok {i : Py} {state ended : RunState world}
    (run : (collectOutput i).run state = (.ok (), ended))
    : ∃ name, i = .str name ∧ Collected state name ended := by
  have text : ∃ name, i = .str name := by
    cases i with
    | str name => exact ⟨name, rfl⟩
    | _ => cases run
  obtain ⟨name, rfl⟩ := text
  refine ⟨name, rfl, ?_⟩
  have isStream : ((Py.str name).equal (.str "STDERR") || (Py.str name).equal (.str "STDOUT"))
      = decide (name ∈ streams) := by
    rw [Bool.eq_iff_iff]
    simp [Py.equal, streams]
  unfold collectOutput at run
  rw [isStream] at run
  by_cases stream : name ∈ streams
  · rw [decide_eq_true stream] at run
    cases run
    exact .skipped stream
  · have stored : Collected state name _ := .stored stream
    have path : (Program.lift (pathOf (.str name))).run state = (.ok name, state) := rfl
    rw [decide_eq_false stream, if_neg Bool.false_ne_true, Program.run_bind_of_ok path,
      Program.run_bind_of_ok (Program.run_gets state RunState.tree)] at run
    cases read : world.read state.tree name with
    | none =>
        have missing : isMissing world state.tree name = true := by simp [isMissing, stream, read]
        rw [read] at run
        cases run
        rw [storedText, read, missing] at stored
        simpa [Status.afterOutputs, missingText] using stored
    | some outcome =>
        have present : isMissing world state.tree name = false := by simp [isMissing, read]
        rw [read] at run
        obtain ⟨contents, rfl, run⟩ := Program.run_lift_bind_eq_ok.mp run
        cases run
        rw [storedText, read, present] at stored
        simpa [Status.afterOutputs] using stored

/-- What the loop over the names has done. -/
structure CollectedAll (state : RunState world) (outputs : List String) (ended : RunState world)
    : Prop where
  frame : ended = { state with resultFiles := ended.resultFiles, status := ended.status }
  status : ended.status = state.status.afterOutputs (outputs.any (isMissing world state.tree))
  files : ∀ name, ended.resultFiles.lookup name
    = if name ∈ outputs ∧ name ∉ streams then some (storedText world state.tree name)
      else state.resultFiles.lookup name
  distinct : (state.resultFiles.map Prod.fst).Nodup → (ended.resultFiles.map Prod.fst).Nodup

theorem CollectedAll.nil (state : RunState world) : CollectedAll state [] state where
  frame := rfl
  status := by simp [Status.afterOutputs]
  files name := by simp
  distinct := id

/-- One more round in front. -/
theorem Collected.cons {state middle ended : RunState world} {name : String}
    {rest : List String} (first : Collected state name middle)
    (later : CollectedAll middle rest ended)
    : CollectedAll state (name :: rest) ended := by
  obtain ⟨frame, status, files, distinct⟩ := later
  cases first with
  | skipped stream =>
      refine ⟨frame, ?_, ?_, distinct⟩
      · have present : isMissing world state.tree name = false := by simp [isMissing, stream]
        rw [status, List.any_cons, present, Bool.false_or]
      · intro other
        rw [files]
        by_cases same : other = name
        · subst same
          simp [stream]
        · simp [same]
  | stored notStream =>
      refine ⟨frame, ?_, ?_, fun before => distinct (setItem_nodup name _ before)⟩
      · rw [status, List.any_cons, ← Status.afterOutputs_or]
      · intro other
        rw [files]
        by_cases same : other = name
        · subst same
          simp [notStream, lookup_setItem_self]
        · simp [same, lookup_setItem_of_ne same]

/-- The loop over the output files, by induction on them. -/
theorem collectOutputs_ok {spec : LabSpec} {state ended : RunState world}
    (run : (collectOutputs spec).run state = (.ok (), ended))
    : ∃ outputs : List String, (spec .outputFiles).iterate = .ok (outputs.map .str)
      ∧ CollectedAll state outputs ended := by
  unfold collectOutputs at run
  obtain ⟨items, listed, loop⟩ := Program.run_lift_bind_eq_ok.mp run
  suffices all : ∃ outputs : List String, items = outputs.map .str
      ∧ CollectedAll state outputs ended by
    obtain ⟨outputs, rfl, collected⟩ := all
    exact ⟨outputs, listed, collected⟩
  clear run listed
  induction items generalizing state with
  | nil =>
      cases loop
      exact ⟨[], rfl, .nil _⟩
  | cons i rest ih =>
      obtain ⟨_, middle, first, remaining⟩ := Program.run_bind_eq_ok.mp loop
      obtain ⟨name, rfl, collected⟩ := collectOutput_ok first
      obtain ⟨outputs, rfl, later⟩ := ih remaining
      exact ⟨name :: outputs, rfl, collected.cons later⟩

-----------------------------------------------------------------------------------------
-- The try block
-----------------------------------------------------------------------------------------

/-- The loaded specification replaces the submitted one. -/
theorem prepare_labSpec (interpreter : Interpreter) (flags : RunFlags) (spec : LabSpec)
    (state : RunState world)
    : ((prepare interpreter flags spec).run state).2.sub.labSpec = spec := by
  have allows : AllowsSettings fun sub => sub.labSpec = spec := fun _ _ _ _ loaded _ => loaded
  exact prepare_sub allows interpreter flags spec state rfl

/-- Nothing was executed, collected or written yet. -/
structure Fresh (state : RunState world) : Prop where
  executed : state.executed = []
  resultFiles : state.resultFiles = []
  out : state.out = ""
  err : state.err = ""

theorem Fresh.ignoresSetup : IgnoresSetup (Fresh : RunState world → Prop) where
  tree _ _ fresh := ⟨fresh.executed, fresh.resultFiles, fresh.out, fresh.err⟩
  sub fresh := ⟨fresh.executed, fresh.resultFiles, fresh.out, fresh.err⟩

/-- What a run depends on: the names of the outputs, how the command ended and the files that
it left.
-/
structure Outcome (world : World) where
  outputs : List String
  ending : Ending
  after : world.Tree

/-- The status of a run with this outcome. -/
def Outcome.status (outcome : Outcome world) : Status :=
  outcome.ending.status.afterOutputs (outcome.outputs.any (isMissing world outcome.after))

/-- The text that a run with this outcome stores under a name. -/
def Outcome.text (outcome : Outcome world) (name : String) : Option String :=
  if name ∈ streams then some ""
  else if name ∈ outcome.outputs then some (storedText world outcome.after name)
  else none

/-- The run executed one command, and the names and the ending are as they say. -/
structure Outcome.Of (outcome : Outcome world) (flags : RunFlags) (spec : LabSpec)
    (executed : List (Execution world)) : Prop where
  named : (spec .outputFiles).iterate = .ok (outcome.outputs.map .str)
  ended : ∃ execution, executed = [execution] ∧ execution.command = commandOf world flags spec
    ∧ execution.Ended outcome.ending outcome.after

/-- What a try block with this outcome leaves. -/
structure Outcome.Left (outcome : Outcome world) (ended : RunState world) : Prop where
  status : ended.status = outcome.status
  files : ∀ name, ended.resultFiles.lookup name
    = if name ∈ streams then none else outcome.text name
  distinct : (ended.resultFiles.map Prod.fst).Nodup
  out : ended.out = ""
  err : ended.err = ""

/-- A directory is only a tree for its body. -/
theorem directory_ok {pristine : Bool} {Value : Type} {body : Running world Value}
    {state ended : RunState world} {value : Value}
    (run : (directory pristine body).run state = (.ok value, ended))
    : ∃ tree, body.run (state.withTree tree) = (.ok value, ended) := by
  unfold directory at run
  cases pristine with
  | false => exact ⟨world.root, run⟩
  | true =>
      rw [if_pos rfl, inTemporaryDirectory_run] at run
      cases made : world.temporaryDirectory with
      | error raised =>
          rw [made] at run
          cases run
      | ok tree =>
          rw [made] at run
          dsimp only at run
          cases removed : world.cleanup (body.run (state.withTree tree)).2.tree with
          | error raised =>
              rw [removed] at run
              cases run
          | ok _ =>
              rw [removed] at run
              exact ⟨tree, run⟩

/-- A try block that does not raise has an outcome. -/
theorem tryBlock_ok {interpreter : Interpreter} {flags : RunFlags}
    {state ended : RunState world} (fresh : Fresh state)
    (run : (tryBlock interpreter flags).run state = (.ok (), ended))
    : ∃ outcome : Outcome world,
      outcome.Of flags ended.sub.labSpec ended.executed ∧ outcome.Left ended := by
  obtain ⟨tree, run⟩ := directory_ok run
  obtain ⟨spec, fetched, fetches, run⟩ := Program.run_bind_eq_ok.mp run
  obtain ⟨_, prepared, prepares, run⟩ := Program.run_bind_eq_ok.mp run
  obtain ⟨_, executed, executes, collects⟩ := Program.run_bind_eq_ok.mp run
  have freshFetched : Fresh fetched := by
    have kept := fetchSpec_keeps Fresh.ignoresSetup.tree flags _
      (Fresh.ignoresSetup.tree state tree fresh)
    rwa [fetches] at kept
  have freshPrepared : Fresh prepared := by
    have kept := prepare_keeps Fresh.ignoresSetup interpreter flags spec _ freshFetched
    rwa [prepares] at kept
  have loaded : prepared.sub.labSpec = spec := by
    have kept := prepare_labSpec interpreter flags spec fetched
    rwa [prepares] at kept
  obtain ⟨execution, ending, after, environ, command, finished, rfl⟩ := runCommand_ok executes
  obtain ⟨outputs, named, collected⟩ := collectOutputs_ok collects
  rw [collected.frame]
  refine ⟨⟨outputs, ending, after⟩, ⟨?_, execution, ?_, ?_, finished⟩, ?_⟩
  · rw [← loaded] at named
    exact named
  · dsimp only
    rw [freshPrepared.executed, List.nil_append]
  · rw [← loaded] at command
    exact command
  · refine ⟨collected.status, ?_, ?_, freshPrepared.out, freshPrepared.err⟩
    · intro name
      dsimp only
      rw [collected.files, freshPrepared.resultFiles]
      by_cases stream : name ∈ streams <;> simp [Outcome.text, stream]
    · refine collected.distinct ?_
      dsimp only
      rw [freshPrepared.resultFiles]
      exact List.nodup_nil

-----------------------------------------------------------------------------------------
-- Whole runs
-----------------------------------------------------------------------------------------

/-- The statements after the try block keep what it left. -/
theorem buildResult_ok {interpreter : Interpreter} {state final : RunState world}
    {result : SubmissionResult}
    (run : (buildResult interpreter).run state = (.ok result, final))
    : result.submission = state.sub
      ∧ final.resultFiles
        = setItem "STDERR" state.err (setItem "STDOUT" state.out state.resultFiles)
      ∧ result.status = .str state.status.text
      ∧ final.executed = state.executed
      ∧ FiguresComputable interpreter state.sub (filesDict final.resultFiles) result.status
        result.files := by
  unfold buildResult at run
  rw [Program.run_bind_of_ok (Program.run_modify _ _),
    Program.run_bind_of_ok (Program.run_gets _ _), Program.run_lift,
    SubmissionResult.init_outcome] at run
  obtain ⟨built, rfl⟩ := Prod.mk.inj run
  rw [id_eq] at built
  cases figures : ((computeFigures interpreter state.sub (filesDict
      (setItem "STDERR" state.err (setItem "STDOUT" state.out state.resultFiles)))
      (.str state.status.text)).run []).1 with
  | error raised =>
      rw [figures] at built
      cases built
  | ok after =>
      rw [figures] at built
      cases built
      exact ⟨rfl, rfl, rfl, rfl, (computeFigures_ok_iff ..).mp ⟨after, figures, rfl⟩⟩

/-- A run that returns was not refused. -/
theorem runSubmissionLocally_ok {interpreter : Interpreter} {flags : RunFlags}
    {state final : RunState world} {result : SubmissionResult}
    (run : (runSubmissionLocally interpreter flags).run state = (.ok result, final))
    : conclude interpreter ((tryBlock interpreter flags).run state) = (.ok result, final) := by
  by_cases refused : state.environ.lookup "IN_DOCKER" = some "yes"
      ∧ flags.runInDocker ∧ ¬ flags.runPristine
  · unfold runSubmissionLocally at run
    rw [Program.run_bind_of_ok (Program.run_gets _ _), if_pos refused] at run
    cases run
  · rwa [← runSubmissionLocally_run interpreter refused]

/-- The result of a run whose try block does not raise, and the files with which it is
built, by the outcome.
-/
structure Outcome.Shown (outcome : Outcome world) (result : SubmissionResult)
    (final : RunState world) : Prop where
  status : result.status = .str outcome.status.text
  distinct : (final.resultFiles.map Prod.fst).Nodup
  texts : ∀ name, final.resultFiles.lookup name = outcome.text name

theorem conclude_ok {interpreter : Interpreter} {flags : RunFlags}
    {state ended final : RunState world} {result : SubmissionResult} (fresh : Fresh state)
    (tried : (tryBlock interpreter flags).run state = (.ok (), ended))
    (run : (runSubmissionLocally interpreter flags).run state = (.ok result, final))
    : ∃ outcome : Outcome world,
      outcome.Of flags result.submission.labSpec final.executed ∧ outcome.Shown result final := by
  obtain ⟨outcome, isOutcome, left⟩ := tryBlock_ok fresh tried
  have built := runSubmissionLocally_ok run
  rw [tried] at built
  obtain ⟨sub, files, status, executed, _⟩ := buildResult_ok built
  refine ⟨outcome, ?_, ?_, ?_, ?_⟩
  · rwa [sub, executed]
  · rw [status, left.status]
  · rw [files]
    exact setItem_nodup _ _ (setItem_nodup _ _ left.distinct)
  · intro name
    rw [files, left.out, left.err]
    by_cases isErr : name = "STDERR"
    · subst isErr
      rw [lookup_setItem_self]
      rfl
    · by_cases isOut : name = "STDOUT"
      · subst isOut
        rw [lookup_setItem_of_ne (by decide), lookup_setItem_self]
        rfl
      · have other : name ∉ streams := by simp [streams, isErr, isOut]
        rw [lookup_setItem_of_ne isErr, lookup_setItem_of_ne isOut, left.files, if_neg other]

-----------------------------------------------------------------------------------------
-- Status and files
-----------------------------------------------------------------------------------------

/-- No step of the run raises. -/
structure Quiet (interpreter : Interpreter) (flags : RunFlags) (world : World)
    (environ : Environ) (sub : Submission) (result : SubmissionResult) (final : RunState world)
    : Prop where
  tried : ((tryBlock interpreter flags).run (.start world environ sub)).1 = .ok ()
  returned : (runSubmissionLocally interpreter flags).run (.start world environ sub)
    = (.ok result, final)

theorem fresh_start (world : World) (environ : Environ) (sub : Submission)
    : Fresh (RunState.start world environ sub) :=
  ⟨rfl, rfl, rfl, rfl⟩

theorem Quiet.shown {interpreter : Interpreter} {flags : RunFlags} {environ : Environ}
    {sub : Submission} {result : SubmissionResult} {final : RunState world}
    (quiet : Quiet interpreter flags world environ sub result final)
    : ∃ outcome : Outcome world,
      outcome.Of flags result.submission.labSpec final.executed ∧ outcome.Shown result final :=
  conclude_ok (fresh_start world environ sub) (Prod.ext quiet.tried rfl) quiet.returned

/-- The result has the files with which it was built, unless a figure function changed them.
-/
theorem Quiet.files_eq {interpreter : Interpreter} {flags : RunFlags} {environ : Environ}
    {sub : Submission} {result : SubmissionResult} {final : RunState world}
    (quiet : Quiet interpreter flags world environ sub result final)
    (leaves : LeavesFiles interpreter result.submission.labSpec)
    : result.files = filesDict final.resultFiles := by
  have built := runSubmissionLocally_ok quiet.returned
  have tried : (tryBlock interpreter flags).run (.start world environ sub) = (.ok (), _) :=
    Prod.ext quiet.tried rfl
  rw [tried] at built
  obtain ⟨same, _, _, _, computable⟩ := buildResult_ok built
  exact computable.files_eq (same ▸ leaves)

/-- The names, the ending and the files are those of one run only. -/
theorem Outcome.Of.unique {outcome other : Outcome world} {flags : RunFlags} {spec : LabSpec}
    {executed : List (Execution world)} (one : outcome.Of flags spec executed)
    (another : other.Of flags spec executed)
    : outcome = other := by
  obtain ⟨named, execution, first, _, ended⟩ := one
  obtain ⟨sameNamed, sameExecution, second, _, sameEnded⟩ := another
  have names : outcome.outputs = other.outputs :=
    List.map_injective_iff.mpr (fun _ _ => Py.str.inj) (Except.ok.inj (named.symm.trans sameNamed))
  cases first.symm.trans second
  have endings := Prod.mk.inj (Except.ok.inj (ended.symm.trans sameEnded))
  obtain ⟨outputs, ending, after⟩ := outcome
  cases names
  cases endings.1
  cases endings.2
  rfl

theorem Status.text_injective : Function.Injective Status.text := by
  intro one other same
  cases one <;> cases other <;> simp_all [Status.text]

theorem Outcome.Shown.status_iff {outcome : Outcome world} {result : SubmissionResult}
    {final : RunState world} (shown : outcome.Shown result final) (status : Status)
    : result.status = .str status.text ↔ outcome.status = status := by
  rw [shown.status]
  exact ⟨fun same => Status.text_injective (Py.str.inj same), fun same => by rw [same]⟩

section Statuses

variable {outcome : Outcome world}

/-- Some output that is not a stream is missing. -/
theorem any_isMissing_iff
    : outcome.outputs.any (isMissing world outcome.after) = true
      ↔ ∃ name ∈ outcome.outputs, name ∉ streams ∧ world.read outcome.after name = none := by
  simp [isMissing]

theorem Outcome.status_eq_timeout_iff
    : outcome.status = .timeout ↔ outcome.ending = .timedOut := by
  unfold Outcome.status
  cases outcome.ending <;> cases outcome.outputs.any (isMissing world outcome.after) <;>
    simp [Ending.status, Status.afterOutputs]

theorem Outcome.status_eq_missingOutput_iff
    : outcome.status = .missingOutput
      ↔ outcome.ending ≠ .timedOut
        ∧ ∃ name ∈ outcome.outputs, name ∉ streams ∧ world.read outcome.after name = none := by
  rw [← any_isMissing_iff]
  unfold Outcome.status
  cases outcome.ending <;> cases outcome.outputs.any (isMissing world outcome.after) <;>
    simp [Ending.status, Status.afterOutputs]

theorem Outcome.status_eq_success_iff
    : outcome.status = .success
      ↔ outcome.ending ≠ .timedOut
        ∧ ∀ name ∈ outcome.outputs, name ∉ streams → world.read outcome.after name ≠ none := by
  have none : (∀ name ∈ outcome.outputs, name ∉ streams → world.read outcome.after name ≠ none)
      ↔ ¬ outcome.outputs.any (isMissing world outcome.after) = true := by
    rw [any_isMissing_iff]
    simp
  rw [none]
  unfold Outcome.status
  cases outcome.ending <;> cases outcome.outputs.any (isMissing world outcome.after) <;>
    simp [Ending.status, Status.afterOutputs]

end Statuses

/-- Two runs, of two specifications, with the same named outputs in any order, both timed out
or neither, and with the same outputs afterwards.
-/
structure Outcome.Alike {world otherWorld : World} (outcome : Outcome world)
    (other : Outcome otherWorld)
    : Prop where
  names : ∀ name, name ∈ outcome.outputs ↔ name ∈ other.outputs
  timedOut : outcome.ending = .timedOut ↔ other.ending = .timedOut
  reads : ∀ name ∈ outcome.outputs,
    world.read outcome.after name = otherWorld.read other.after name

section Alike

variable {otherWorld : World} {outcome : Outcome world} {other : Outcome otherWorld}

theorem Outcome.Alike.status (alike : outcome.Alike other) : outcome.status = other.status := by
  have missing : outcome.outputs.any (isMissing world outcome.after)
      = other.outputs.any (isMissing otherWorld other.after) := by
    rw [Bool.eq_iff_iff, any_isMissing_iff, any_isMissing_iff]
    constructor
    · rintro ⟨name, member, stream, absent⟩
      exact ⟨name, (alike.names name).mp member, stream, alike.reads name member ▸ absent⟩
    · rintro ⟨name, member, stream, absent⟩
      have here := (alike.names name).mpr member
      exact ⟨name, here, stream, (alike.reads name here).trans absent⟩
  have endings : outcome.ending.status = other.ending.status := by
    have timedOut := alike.timedOut
    cases one : outcome.ending <;> cases another : other.ending <;>
      simp_all [Ending.status]
  unfold Outcome.status
  rw [missing, endings]

theorem Outcome.Alike.text (alike : outcome.Alike other) (name : String)
    : outcome.text name = other.text name := by
  unfold Outcome.text
  by_cases member : name ∈ outcome.outputs
  · have stored : storedText world outcome.after name = storedText otherWorld other.after name := by
      unfold storedText
      rw [alike.reads name member]
    rw [if_pos member, if_pos ((alike.names name).mp member), stored]
  · rw [if_neg member, if_neg fun there => member ((alike.names name).mpr there)]

end Alike

/-- The keys are the named outputs and the two streams. -/
theorem Outcome.text_isSome_iff {outcome : Outcome world} {name : String}
    : (outcome.text name).isSome ↔ name ∈ outcome.outputs ∨ name ∈ streams := by
  unfold Outcome.text
  by_cases stream : name ∈ streams
  · simp [stream]
  · by_cases member : name ∈ outcome.outputs <;> simp [stream, member]

theorem Outcome.Shown.alike {otherWorld : World} {outcome : Outcome world}
    {other : Outcome otherWorld} {result otherResult : SubmissionResult}
    {final : RunState world} {otherFinal : RunState otherWorld}
    (shown : outcome.Shown result final) (otherShown : other.Shown otherResult otherFinal)
    (alike : outcome.Alike other)
    : result.status = otherResult.status
      ∧ ∀ name, final.resultFiles.lookup name = otherFinal.resultFiles.lookup name := by
  refine ⟨by rw [shown.status, otherShown.status, alike.status], fun name => ?_⟩
  rw [shown.texts, otherShown.texts, alike.text]

/-- A run without exceptions is `TIMEOUT` exactly when its command timed out,
`MISSING_OUTPUT` when it did not and a named output is missing, `SUCCESS` otherwise; its
`result_files` are the named outputs and the streams, each existing output under its own
name, and the result has them unless a figure function changes them; and neither depends on
the order of the names. Witness: the loop over the names only asks whether one of them is
missing, and stores a text that depends on the name alone.
-/
theorem quiet_run_classified (interpreter : Interpreter) (flags : RunFlags) (world : World)
    (environ : Environ) (sub : Submission) (result : SubmissionResult) (final : RunState world)
    (quiet : Quiet interpreter flags world environ sub result final)
    : ∃ outcome : Outcome world, outcome.Of flags result.submission.labSpec final.executed
      ∧ (result.status = .str Status.timeout.text ↔ outcome.ending = .timedOut)
      ∧ (result.status = .str Status.missingOutput.text
          ↔ outcome.ending ≠ .timedOut
            ∧ ∃ name ∈ outcome.outputs, name ∉ streams ∧ world.read outcome.after name = none)
      ∧ (result.status = .str Status.success.text
          ↔ outcome.ending ≠ .timedOut
            ∧ ∀ name ∈ outcome.outputs, name ∉ streams → world.read outcome.after name ≠ none)
      ∧ (final.resultFiles.map Prod.fst).Nodup
      ∧ (∀ name, name ∈ final.resultFiles.map Prod.fst ↔ name ∈ outcome.outputs ∨ name ∈ streams)
      ∧ (∀ name ∈ outcome.outputs, name ∉ streams → ∀ contents,
          world.read outcome.after name = some (.ok contents)
            → final.resultFiles.lookup name = some contents)
      ∧ (LeavesFiles interpreter result.submission.labSpec
          → result.files = filesDict final.resultFiles)
      ∧ ∀ otherInterpreter otherFlags otherWorld otherEnviron otherSub otherResult otherFinal,
          Quiet otherInterpreter otherFlags otherWorld otherEnviron otherSub otherResult otherFinal
            → ∀ other : Outcome otherWorld,
              other.Of otherFlags otherResult.submission.labSpec otherFinal.executed
                → outcome.Alike other
                → result.status = otherResult.status
                  ∧ ∀ name, final.resultFiles.lookup name
                    = otherFinal.resultFiles.lookup name := by
  obtain ⟨outcome, isOutcome, shown⟩ := quiet.shown
  refine ⟨outcome, isOutcome, ?_, ?_, ?_, shown.distinct, ?_, ?_, quiet.files_eq, ?_⟩
  · exact (shown.status_iff .timeout).trans Outcome.status_eq_timeout_iff
  · exact (shown.status_iff .missingOutput).trans Outcome.status_eq_missingOutput_iff
  · exact (shown.status_iff .success).trans Outcome.status_eq_success_iff
  · intro name
    rw [← lookup_isSome_iff, shown.texts, Outcome.text_isSome_iff]
  · intro name member notStream contents read
    rw [shown.texts, Outcome.text, if_neg notStream, if_pos member, storedText, read]
  · intro _ _ _ _ _ _ _ otherQuiet other isOther alike
    obtain ⟨known, isKnown, otherShown⟩ := otherQuiet.shown
    rw [← isOther.unique isKnown] at otherShown
    exact shown.alike otherShown alike

/-- A world whose specification names the outputs, with its files and how its command ends. -/
def collecting (outputs : List String) (existing : List (String × String)) (ending : Ending)
    : World :=
  { answering (fun _ => false) with
    labInfo := fun tree =>
      (.ok fun name =>
        if name = "output_files" then some (.list (outputs.map .str)) else answerLab tree name,
        tree)
    read := fun _ name => (existing.lookup name).map .ok
    execute := fun _ _ tree _ _ => .ok (ending, tree) }

/-- The run of the empty submission in such a world. -/
def collectingRun (outputs : List String) (existing : List (String × String)) (ending : Ending)
    : Except Raised SubmissionResult × RunState (collecting outputs existing ending) :=
  (runSubmissionLocally plainInterpreter {}).run
    (.start _ [] (emptySubmission (plainSpec (.list []))))

/-- The outcome of that run. -/
def collectingOutcome (outputs : List String) (existing : List (String × String))
    (ending : Ending)
    : Outcome (collecting outputs existing ending) :=
  ⟨outputs, ending, false⟩

/-- One of the outputs is missing, and one is named twice. -/
theorem quiet_run_classified_missing
    : ∃ result final,
        collectingRun ["a", "STDOUT", "b", "a"] [("a", "1")] (.exited 0) = (.ok result, final)
        ∧ result.status = .str Status.missingOutput.text
        ∧ result.files = filesDict final.resultFiles
        ∧ final.resultFiles.lookup "a" = some "1" := by
  refine ⟨_, _, rfl, ?_⟩
  obtain ⟨outcome, isOutcome, _, missing, _, _, _, contents, kept, _⟩ :=
    quiet_run_classified plainInterpreter {}
      (collecting ["a", "STDOUT", "b", "a"] [("a", "1")] (.exited 0)) []
      (emptySubmission (plainSpec (.list []))) _ _ ⟨rfl, rfl⟩
  have known : outcome = collectingOutcome ["a", "STDOUT", "b", "a"] [("a", "1")] (.exited 0) :=
    isOutcome.unique ⟨rfl, _, rfl, rfl, rfl⟩
  subst known
  exact ⟨missing.mpr ⟨by decide, "b", by decide, by decide, rfl⟩, kept fun _ _ _ => rfl,
    contents "a" (by decide) (by decide) "1" rfl⟩

-----------------------------------------------------------------------------------------
-- Success
-----------------------------------------------------------------------------------------

/-- A run whose try block raises does not return `SUCCESS`. -/
theorem tried_of_success {interpreter : Interpreter} {flags : RunFlags}
    {state final : RunState world} {result : SubmissionResult}
    (run : (runSubmissionLocally interpreter flags).run state = (.ok result, final))
    (success : result.status = .str Status.success.text)
    : ((tryBlock interpreter flags).run state).1 = .ok () := by
  have built := runSubmissionLocally_ok run
  revert built
  rcases (tryBlock interpreter flags).run state with ⟨raised | _, ended⟩
  · intro built
    by_cases passed : (raised.kind = badOptionException || !raised.caught) = true
    · unfold conclude handle at built
      dsimp only at built
      rw [if_pos passed] at built
      cases built
    · have handled : raised.kind ≠ badOptionException ∧ raised.caught = true := by
        simpa using passed
      have returned := conclude_error interpreter handled.1 handled.2 ended
      rw [built] at returned
      cases figures : ((computeFigures interpreter ended.sub (handledFiles raised ended)
          (.str Status.error.text)).run []).1 with
      | error error =>
          rw [figures] at returned
          cases returned
      | ok r =>
          rw [figures] at returned
          cases returned
          cases Status.text_injective (Py.str.inj success)
  · exact fun _ => rfl

/-- The command ended before its time limit with exit code 0, and every named output that is
not a stream exists.
-/
def Outcome.Succeeded (outcome : Outcome world) : Prop :=
  outcome.ending = .exited 0
    ∧ ∀ name ∈ outcome.outputs, name ∉ streams → world.read outcome.after name ≠ none

/-- The command of a run with status `SUCCESS` ended before its time limit and every output
exists, but it succeeded exactly when its exit code is 0. Witness: the status is never
computed from the exit code.
-/
theorem success_succeeded_iff (interpreter : Interpreter) (flags : RunFlags) (world : World)
    (environ : Environ) (sub : Submission) (result : SubmissionResult) (final : RunState world)
    (returned : (runSubmissionLocally interpreter flags).run (.start world environ sub)
      = (.ok result, final))
    (success : result.status = .str Status.success.text)
    : ∃ outcome : Outcome world, outcome.Of flags result.submission.labSpec final.executed
      ∧ ∃ code, outcome.ending = .exited code ∧ (outcome.Succeeded ↔ code = 0) := by
  have quiet : Quiet interpreter flags world environ sub result final :=
    ⟨tried_of_success returned success, returned⟩
  obtain ⟨outcome, isOutcome, shown⟩ := quiet.shown
  obtain ⟨inTime, exist⟩ :=
    Outcome.status_eq_success_iff.mp ((shown.status_iff .success).mp success)
  refine ⟨outcome, isOutcome, ?_⟩
  cases ending : outcome.ending with
  | timedOut => exact absurd ending inTime
  | exited code =>
      refine ⟨code, rfl, fun succeeded => ?_, fun zero => ⟨by rw [ending, zero], exist⟩⟩
      exact Ending.exited.inj (ending.symm.trans succeeded.1)

/-- A command that exits with 0 and leaves its output succeeded. -/
theorem success_succeeded_zero
    : ∃ result final, collectingRun ["a"] [("a", "1")] (.exited 0) = (.ok result, final)
        ∧ result.status = .str Status.success.text
        ∧ (collectingOutcome ["a"] [("a", "1")] (.exited 0)).Succeeded := by
  refine ⟨_, _, rfl, rfl, ?_⟩
  obtain ⟨outcome, isOutcome, code, ending, succeeded⟩ :=
    success_succeeded_iff plainInterpreter {} (collecting ["a"] [("a", "1")] (.exited 0)) []
      (emptySubmission (plainSpec (.list []))) _ _ rfl rfl
  have known : outcome = collectingOutcome ["a"] [("a", "1")] (.exited 0) :=
    isOutcome.unique ⟨rfl, _, rfl, rfl, rfl⟩
  subst known
  exact succeeded.mpr (Ending.exited.inj ending).symm

/-- A command that fails over an output of an earlier run gets `SUCCESS`. -/
theorem failed_command_gets_success
    : ∃ result final, collectingRun ["a"] [("a", "1")] (.exited 2) = (.ok result, final)
        ∧ result.status = .str Status.success.text
        ∧ (collectingOutcome ["a"] [("a", "1")] (.exited 2)).Of {} result.submission.labSpec
          final.executed
        ∧ ¬ (collectingOutcome ["a"] [("a", "1")] (.exited 2)).Succeeded := by
  refine ⟨_, _, rfl, rfl, ⟨rfl, _, rfl, rfl, rfl⟩, fun succeeded => ?_⟩
  cases succeeded.1

end PMKVLab.Runner
