import PMKVLab.Runner.Lab
import PMKVLab.Runner.PristineRuns

/-! What `run_submission_locally` returns when its try block raises. The handler goes on to
the constructor of the result, which computes the figures of merit from the files that were
collected before the exception.
-/

namespace PMKVLab.Runner

open PMKVLab.Library

-----------------------------------------------------------------------------------------
-- Figures that can be computed
-----------------------------------------------------------------------------------------

/-- The figure in the scope gets a value from its `field` or its `function` entry, or has
neither and gets the one of the figure before it. A function may leave other files.
-/
inductive Valued (interpreter : Interpreter) (scope : Scope) : Py → Py → Prop
  | field {field value : Py} (has : scope.i.contains (.str "field") = .ok true)
      (read : scope.i.getItem (.str "field") = .ok field)
      (extracted : extractFromFirstCsvLineByField interpreter scope.f field = .ok value)
      : Valued interpreter scope value scope.files
  | function {text : String} {value files : Py}
      (lacks : scope.i.contains (.str "field") = .ok false)
      (has : scope.i.contains (.str "function") = .ok true)
      (read : scope.i.getItem (.str "function") = .ok (.str text))
      (evaluated : interpreter.eval text scope = (.ok value, files))
      : Valued interpreter scope value files
  | silent {value : Py} (lacks : scope.i.contains (.str "field") = .ok false)
      (lacksFunction : scope.i.contains (.str "function") = .ok false)
      (before : scope.v = some value)
      : Valued interpreter scope value scope.files

/-- Every figure in turn has a name, a file among those that are left, and a value; the last
argument is the files after all of them.
-/
inductive Answered (interpreter : Interpreter) (sub : Submission) (status : Py)
    : Figures → List Py → Py → Prop
  | done (before : Figures) : Answered interpreter sub status before [] before.files
  | next {before : Figures} {i name file f value left files : Py} {rest : List Py}
      (named : i.getItem (.str "name") = .ok name) (filed : i.getItem (.str "file") = .ok file)
      (found : before.files.getItem file = .ok f)
      (valued : Valued interpreter ⟨before, sub, status, i, f⟩ value left)
      (later : Answered interpreter sub status
        ⟨left, some value, before.r ++ [.dict [("name", name), ("value", value)]]⟩ rest files)
      : Answered interpreter sub status before (i :: rest) files

/-- The figures of a submission can be computed one after the other from `files`, and leave
others.
-/
def FiguresComputable (interpreter : Interpreter) (sub : Submission) (files status left : Py)
    : Prop :=
  ∃ figures, (sub.labSpec .figuresOfMerit).iterate = .ok figures
    ∧ Answered interpreter sub status { files := files } figures left

variable {interpreter : Interpreter} {sub : Submission} {status : Py}

/-- `eval` succeeds on texts only. -/
theorem evaluate_ok {expression : Py} {scope : Scope} {after : Figures}
    {evaluated ended : List String}
    (run : (evaluate interpreter expression scope).run evaluated = (.ok after, ended))
    : ∃ text value files, expression = .str text
      ∧ interpreter.eval text scope = (.ok value, files)
      ∧ after = ⟨files, some value, scope.r⟩ := by
  cases expression with
  | str text =>
      obtain ⟨_, _, _, run⟩ := Program.run_bind_eq_ok.mp run
      obtain ⟨value, outcome, run⟩ := Program.run_lift_bind_eq_ok.mp run
      cases run
      exact ⟨text, value, _, rfl, Prod.ext outcome rfl, rfl⟩
  | _ => cases run

/-- A branch of the loop finds a value, or keeps the variables when there is none yet. -/
theorem figureValue_ok {scope : Scope} {after : Figures} {evaluated ended : List String}
    (run : (figureValue interpreter scope).run evaluated = (.ok after, ended))
    : after.v = none
      ∨ ∃ value left, Valued interpreter scope value left
        ∧ after = ⟨left, some value, scope.r⟩ := by
  unfold figureValue at run
  obtain ⟨hasField, field, run⟩ := Program.run_lift_bind_eq_ok.mp run
  cases hasField with
  | true =>
      rw [if_pos rfl] at run
      obtain ⟨name, read, run⟩ := Program.run_lift_bind_eq_ok.mp run
      obtain ⟨value, extracted, run⟩ := Program.run_lift_bind_eq_ok.mp run
      cases run
      exact .inr ⟨value, _, .field field read extracted, rfl⟩
  | false =>
      rw [if_neg Bool.false_ne_true] at run
      obtain ⟨hasFunction, function, run⟩ := Program.run_lift_bind_eq_ok.mp run
      cases hasFunction with
      | true =>
          rw [if_pos rfl] at run
          obtain ⟨expression, read, run⟩ := Program.run_lift_bind_eq_ok.mp run
          obtain ⟨text, value, files, rfl, computed, rfl⟩ := evaluate_ok run
          exact .inr ⟨value, files, .function field function read computed, rfl⟩
      | false =>
          cases run
          cases before : scope.v with
          | none => exact .inl rfl
          | some value =>
              exact .inr ⟨value, _, .silent field function before, by rw [← before]⟩

/-- A figure that gets a value binds it. -/
theorem Valued.figureValue {scope : Scope} {value left : Py}
    (valued : Valued interpreter scope value left) (evaluated : List String)
    : ∃ ended, (figureValue interpreter scope).run evaluated
        = (.ok ⟨left, some value, scope.r⟩, ended) := by
  unfold Runner.figureValue
  cases valued with
  | field has read extracted =>
      refine ⟨evaluated, Program.run_lift_bind_eq_ok.mpr ⟨true, has, ?_⟩⟩
      rw [if_pos rfl]
      exact Program.run_lift_bind_eq_ok.mpr ⟨_, read,
        Program.run_lift_bind_eq_ok.mpr ⟨value, extracted, rfl⟩⟩
  | @function text _ _ lacks has read computed =>
      refine ⟨evaluated ++ [text], Program.run_lift_bind_eq_ok.mpr ⟨false, lacks, ?_⟩⟩
      rw [if_neg Bool.false_ne_true]
      refine Program.run_lift_bind_eq_ok.mpr ⟨true, has, ?_⟩
      rw [if_pos rfl]
      refine Program.run_lift_bind_eq_ok.mpr ⟨_, read, Program.run_bind_eq_ok.mpr ⟨(), _, rfl, ?_⟩⟩
      rw [computed]
      rfl
  | silent lacks lacksFunction before =>
      refine ⟨evaluated, Program.run_lift_bind_eq_ok.mpr ⟨false, lacks, ?_⟩⟩
      rw [if_neg Bool.false_ne_true]
      refine Program.run_lift_bind_eq_ok.mpr ⟨false, lacksFunction, ?_⟩
      rw [if_neg Bool.false_ne_true, ← before]
      rfl

/-- The loop ends normally exactly when every figure is answered in turn; by induction on the
figures.
-/
theorem figures_ok_iff (interpreter : Interpreter) (sub : Submission) (status : Py)
    (figures : List Py) (before : Figures) (files : Py) (evaluated : List String)
    : (∃ after ended,
        (figures.foldlM (figure interpreter sub status) before).run evaluated = (.ok after, ended)
        ∧ after.files = files)
      ↔ Answered interpreter sub status before figures files := by
  induction figures generalizing before evaluated with
  | nil =>
      constructor
      · rintro ⟨after, ended, ⟨⟩, rfl⟩
        exact .done before
      · rintro ⟨⟩
        exact ⟨before, evaluated, rfl, rfl⟩
  | cons i rest ih =>
      rw [List.foldlM_cons]
      constructor
      · rintro ⟨last, ended, run, same⟩
        obtain ⟨middle, between, first, run⟩ := Program.run_bind_eq_ok.mp run
        unfold figure at first
        obtain ⟨file, filed, first⟩ := Program.run_lift_bind_eq_ok.mp first
        obtain ⟨f, found, first⟩ := Program.run_lift_bind_eq_ok.mp first
        obtain ⟨after, _, value, first⟩ := Program.run_bind_eq_ok.mp first
        obtain ⟨name, named, first⟩ := Program.run_lift_bind_eq_ok.mp first
        rcases figureValue_ok value with unbound | ⟨value, left, valued, rfl⟩
        · rw [unbound] at first
          cases first
        · cases first
          exact .next named filed found valued ((ih _ between).mp ⟨last, ended, run, same⟩)
      · intro answered
        cases answered with
        | @next _ _ name file f value left _ _ named filed found valued later =>
            obtain ⟨middle, run⟩ := valued.figureValue evaluated
            obtain ⟨last, ended, rest, same⟩ := (ih _ middle).mpr later
            refine ⟨last, ended, Program.run_bind_eq_ok.mpr ⟨_, middle, ?_, rest⟩, same⟩
            exact Program.run_lift_bind_eq_ok.mpr ⟨file, filed,
              Program.run_lift_bind_eq_ok.mpr ⟨f, found,
                Program.run_bind_eq_ok.mpr ⟨_, middle, run,
                  Program.run_lift_bind_eq_ok.mpr ⟨name, named, rfl⟩⟩⟩⟩

/-- The figures of a submission can be computed exactly when the constructor gets through its
loop.
-/
theorem computeFigures_ok_iff (interpreter : Interpreter) (sub : Submission)
    (files status left : Py)
    : (∃ after, ((computeFigures interpreter sub files status).run []).1 = .ok after
        ∧ after.files = left)
      ↔ FiguresComputable interpreter sub files status left := by
  have ended : (∃ after, ((computeFigures interpreter sub files status).run []).1 = .ok after
        ∧ after.files = left)
      ↔ ∃ after ended, (computeFigures interpreter sub files status).run [] = (.ok after, ended)
        ∧ after.files = left := by
    rcases (computeFigures interpreter sub files status).run [] with ⟨outcome, middle⟩
    simp
  rw [ended]
  unfold computeFigures FiguresComputable
  constructor
  · rintro ⟨after, last, run, same⟩
    obtain ⟨figures, listed, run⟩ := Program.run_lift_bind_eq_ok.mp run
    exact ⟨figures, listed,
      (figures_ok_iff interpreter sub status figures _ left []).mp ⟨after, last, run, same⟩⟩
  · rintro ⟨figures, listed, answered⟩
    obtain ⟨after, last, run, same⟩ :=
      (figures_ok_iff interpreter sub status figures _ left []).mpr answered
    exact ⟨after, last, Program.run_lift_bind_eq_ok.mpr ⟨figures, listed, run⟩, same⟩

/-- The figure functions of the specification do not change the files. -/
def LeavesFiles (interpreter : Interpreter) (spec : LabSpec) : Prop :=
  ∀ text scope, FromFigures spec text → (interpreter.eval text scope).2 = scope.files

/-- Figures whose functions do not change the files leave them; by induction on the figures.
-/
theorem Answered.files_eq {before : Figures} {figures : List Py} {files : Py}
    (answered : Answered interpreter sub status before figures files)
    (leaves : ∀ i ∈ figures, ∀ text scope, i.getItem (.str "function") = .ok (.str text)
      → (interpreter.eval text scope).2 = scope.files)
    : files = before.files := by
  induction answered with
  | done before => rfl
  | next named filed found valued later ih =>
      rw [List.forall_mem_cons] at leaves
      rw [ih leaves.2]
      cases valued with
      | field | silent => rfl
      | function lacks has read evaluated =>
          exact (congrArg Prod.snd evaluated).symm.trans (leaves.1 _ _ read)

theorem FiguresComputable.files_eq {files left : Py}
    (computable : FiguresComputable interpreter sub files status left)
    (leaves : LeavesFiles interpreter sub.labSpec)
    : left = files := by
  obtain ⟨figures, listed, answered⟩ := computable
  exact answered.files_eq fun i member text scope own =>
    leaves text scope ⟨figures, listed, i, member, own⟩

-----------------------------------------------------------------------------------------
-- Runs whose try block raises
-----------------------------------------------------------------------------------------

variable {world : World}

/-- The files have the texts of both streams. -/
structure HasStreams (files : Py) : Prop where
  stdout : ∃ out, files.getItem (.str "STDOUT") = .ok (.str out)
  stderr : ∃ err, files.getItem (.str "STDERR") = .ok (.str err)

/-- A result with status `ERROR` whose files have `STDOUT` and `STDERR`. -/
structure ErrorResult (result : SubmissionResult) : Prop where
  status : result.status = .str Status.error.text
  files : HasStreams result.files

/-- The files of a run whose try block raised: those collected before, and what the handler
wrote.
-/
def handledFiles (raised : Raised) (failed : RunState world) : Py :=
  filesDict (setItem "STDERR" (failed.err ++ printedTraceback world raised ++ executionFailed)
    (setItem "STDOUT" (failed.out ++ executionFailed) failed.resultFiles))

/-- The files of a result hold their texts. -/
theorem lookup_filesDict (files : List (String × String)) (name : String)
    : (files.map fun file => (file.1, Py.str file.2)).lookup name
      = (files.lookup name).map Py.str := by
  induction files with
  | nil => rfl
  | cons file rest ih =>
      rw [List.map_cons, List.lookup_cons, List.lookup_cons]
      cases same : name == file.1 with
      | true => rfl
      | false => exact ih

/-- A file among the texts of a result. -/
theorem getItem_filesDict {files : List (String × String)} {name contents : String}
    (found : files.lookup name = some contents)
    : (filesDict files).getItem (.str name) = .ok (.str contents) := by
  unfold filesDict Py.getItem
  simp only [lookup_filesDict, found, Option.map_some]

/-- The handler's texts are among the files. -/
theorem handledFiles_streams (raised : Raised) (failed : RunState world)
    : HasStreams (handledFiles raised failed) := by
  refine ⟨⟨failed.out ++ executionFailed, getItem_filesDict ?_⟩,
    ⟨_, getItem_filesDict (lookup_setItem_self _ _ _)⟩⟩
  rw [lookup_setItem_of_ne (by decide), lookup_setItem_self]

/-- After an exception that the handler takes, the run ends in the constructor. -/
theorem conclude_error (interpreter : Interpreter) {raised : Raised}
    (option : raised.kind ≠ badOptionException) (caught : raised.caught = true)
    (failed : RunState world)
    : (conclude interpreter (.error raised, failed)).1
      = ((computeFigures interpreter failed.sub (handledFiles raised failed)
          (.str Status.error.text)).run []).1.map
          fun after => ⟨failed.sub, after.files, .str Status.error.text, .list after.r⟩ := by
  have handled : ¬ (raised.kind = badOptionException || !raised.caught) = true := by
    simp [option, caught]
  rw [← SubmissionResult.init_outcome]
  unfold conclude handle
  simp only [if_neg handled]
  rfl

/-- A run whose try block raises something else than a bad option returns an `ERROR` result
with both streams exactly when `except Exception` takes the exception, and the figures of
the submission at hand can be computed from the files collected so far, by functions that
leave both streams among them. Witness: past the handler only the constructor can raise, and
it does so exactly when a figure cannot be computed.
-/
theorem failing_run_returns_iff (interpreter : Interpreter) (flags : RunFlags) (world : World)
    (environ : Environ) (sub : Submission) (raised : Raised) (failed : RunState world)
    (allowed : ¬ (environ.lookup "IN_DOCKER" = some "yes"
      ∧ flags.runInDocker ∧ ¬ flags.runPristine))
    (raises : (tryBlock interpreter flags).run (.start world environ sub)
      = (.error raised, failed))
    (option : raised.kind ≠ badOptionException)
    : (∃ result,
        ((runSubmissionLocally interpreter flags).run (.start world environ sub)).1 = .ok result
        ∧ ErrorResult result)
      ↔ raised.caught = true
        ∧ ∃ left, FiguresComputable interpreter failed.sub (handledFiles raised failed)
            (.str Status.error.text) left
          ∧ HasStreams left := by
  rw [runSubmissionLocally_run interpreter allowed, raises]
  cases caught : raised.caught with
  | false =>
      have passed : (conclude interpreter (.error raised, failed)).1 = .error raised := by
        simp only [conclude, handle, caught, Bool.not_false, Bool.or_true, if_true]
        rfl
      rw [passed]
      simp
  | true =>
      rw [conclude_error interpreter option caught]
      simp only [← computeFigures_ok_iff, true_and]
      cases ((computeFigures interpreter failed.sub (handledFiles raised failed)
        (.str Status.error.text)).run []).1 with
      | error error => simp [Except.map]
      | ok after =>
          constructor
          · rintro ⟨_, ⟨rfl⟩, result⟩
            exact ⟨after.files, ⟨after, rfl, rfl⟩, result.files⟩
          · rintro ⟨_, ⟨_, ⟨rfl⟩, rfl⟩, streams⟩
            exact ⟨_, rfl, rfl, streams⟩

/-- A world with the specification of this lab, in which no command can be started. -/
def withoutMake : World :=
  { answering (fun _ => false) with
    labInfo := fun tree => (.ok labAttribute, tree)
    execute := fun _ _ _ _ _ => .error ⟨.named "FileNotFoundError", "make"⟩ }

/-- A submission without files, variables and options. -/
def emptySubmission (spec : LabSpec) : Submission :=
  ⟨spec, .dict [], .dict [], .dict []⟩

/-- The figure of this lab raises `KeyError` when the command cannot be started, for the
benchmark results were not collected.
-/
theorem withoutMake_raises_keyError
    : ((tryBlock plainInterpreter {}).run
        (.start withoutMake [] (emptySubmission labSpec))).1
        = .error ⟨.named "FileNotFoundError", "make"⟩
      ∧ ((runSubmissionLocally plainInterpreter {}).run
          (.start withoutMake [] (emptySubmission labSpec))).1
        = .error ⟨.keyError, "bench/perf.csv"⟩ :=
  ⟨rfl, rfl⟩

/-- A `lab.py` that raises gives an `ERROR` result to a submission without figures. -/
theorem raising_lab_returns_error
    : ∃ result,
        ((runSubmissionLocally plainInterpreter {}).run
          (.start (raising "") [] (emptySubmission (plainSpec (.list []))))).1 = .ok result
        ∧ ErrorResult result :=
  (failing_run_returns_iff plainInterpreter {} (raising "") []
    (emptySubmission (plainSpec (.list []))) ⟨.exception, ""⟩ _ (by decide) rfl
    (by decide)).mpr
      ⟨rfl, _, ⟨[], rfl, .done _⟩, handledFiles_streams _ _⟩

end PMKVLab.Runner
