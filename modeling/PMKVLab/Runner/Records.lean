import Mathlib.Data.List.Nodup
import Mathlib.Logic.Function.Basic
import PMKVLab.Library.Csv
import PMKVLab.Library.Programs

/-! The records `Runner.py` sends over the wire, their encoders `_asdict` and decoders
`_fromdict`, and the constructor of `SubmissionResult` that evaluates figures of merit.
-/

namespace PMKVLab.Runner

open PMKVLab.Library

/-- The fields of the named tuple `LabSpec`, in its order. -/
inductive Field
  | repo
  | outputFiles
  | inputFiles
  | runCmd
  | cleanCmd
  | env
  | labName
  | validOptions
  | defaultOptions
  | referenceTag
  | timeLimit
  | figuresOfMerit
deriving DecidableEq, Repr

namespace Field

def name : Field → String
  | .repo => "repo"
  | .outputFiles => "output_files"
  | .inputFiles => "input_files"
  | .runCmd => "run_cmd"
  | .cleanCmd => "clean_cmd"
  | .env => "env"
  | .labName => "lab_name"
  | .validOptions => "valid_options"
  | .defaultOptions => "default_options"
  | .referenceTag => "reference_tag"
  | .timeLimit => "time_limit"
  | .figuresOfMerit => "figures_of_merit"

/-- The parameters of the named tuple's constructor. -/
def all : List Field :=
  [.repo, .outputFiles, .inputFiles, .runCmd, .cleanCmd, .env, .labName, .validOptions,
    .defaultOptions, .referenceTag, .timeLimit, .figuresOfMerit]

def names : List String := all.map name

/-- The value `LabSpec.load` uses for a field that `lab.py` does not define; `none` for the
required fields.
-/
def default : Field → Option Py
  | .cleanCmd => some (.list [.str "true"])
  | .env => some (.list [])
  | .labName => some (.str "<unnamed>")
  | .validOptions => some (.dict [])
  | .defaultOptions => some (.dict [])
  | .timeLimit => some (.int 30)
  | .figuresOfMerit => some (.list [])
  | _ => none

/-- The order of the `fields` table that `LabSpec.load` goes through. -/
def loaded : List Field :=
  [.outputFiles, .inputFiles, .runCmd, .cleanCmd, .env, .repo, .labName, .validOptions,
    .defaultOptions, .referenceTag, .timeLimit, .figuresOfMerit]

theorem mem_all (field : Field) : field ∈ all := by
  cases field <;> decide

theorem name_injective : Function.Injective name := by
  intro left right same
  have distinct : (all.map name).Nodup := by decide
  exact List.inj_on_of_nodup_map distinct (mem_all left) (mem_all right) same

end Field

-----------------------------------------------------------------------------------------
-- LabSpec
-----------------------------------------------------------------------------------------

/-- A lab specification: one value per field of the named tuple. -/
def LabSpec : Type := Field → Py

namespace LabSpec

/-- `_replace`: a copy with one field changed. -/
def replace (spec : LabSpec) (field : Field) (value : Py) : LabSpec :=
  Function.update spec field value

/-- `_asdict` of the named tuple that `LabSpec` extends. -/
def baseAsDict (spec : LabSpec) : List (String × Py) :=
  Field.all.map fun field => (field.name, spec field)

/-- The specification without its option table and figures, as `_asdict` sends it; both
become empty dictionaries.
-/
def emptied (spec : LabSpec) : LabSpec :=
  (spec.replace .validOptions (.dict [])).replace .figuresOfMerit (.dict [])

def asDict (spec : LabSpec) : Py := .dict spec.emptied.baseAsDict

/-- `LabSpec(**arguments)`. -/
def construct (arguments : List (String × Py)) : Except Raised LabSpec := do
  checkKeywords "__new__()" Field.names (arguments.map Prod.fst)
  return fun field => (arguments.lookup field.name).getD .none

/-- `_fromdict`: the two `_replace` calls make copies that are dropped. -/
def fromDict (j : Py) : Except Raised LabSpec := do
  let t ← construct (← j.unpack)
  let _ := t.replace .figuresOfMerit (.list [])
  let _ := t.replace .validOptions (.dict [])
  return t

/-- `LabSpec(**args)` on a full set of arguments takes each field from its own argument. -/
theorem construct_of_perm {arguments : List (String × Py)}
    (named : (arguments.map Prod.fst).Perm Field.names)
    : ∃ spec, construct arguments = .ok spec
      ∧ ∀ field, arguments.lookup field.name = some (spec field) := by
  refine ⟨_, by simp only [construct, checkKeywords_of_perm _ named]; rfl, ?_⟩
  intro field
  obtain ⟨value, found⟩ := exists_lookup_of_mem
    (named.mem_iff.mpr (List.mem_map_of_mem (f := Field.name) (Field.mem_all field)))
  rw [found]
  rfl

/-- The dictionary of a named tuple builds the same tuple again. -/
theorem construct_baseAsDict (spec : LabSpec) : construct spec.baseAsDict = .ok spec := by
  have named : (spec.baseAsDict.map Prod.fst).Perm Field.names := by
    rw [baseAsDict, List.map_map]
    exact .refl _
  obtain ⟨built, constructed, found⟩ := construct_of_perm named
  have same : built = spec := by
    funext field
    have listed := lookup_map_of_mem Field.name spec Field.name_injective (Field.mem_all field)
    exact Option.some.inj ((found field).symm.trans listed)
  rw [constructed, same]

/-- Decoding changes nothing: the decoder builds the tuple its dictionary describes. -/
theorem fromDict_dict (entries : List (String × Py))
    : fromDict (.dict entries) = construct entries := by
  change construct entries >>= pure = construct entries
  exact bind_pure _

/-- A decoded specification is the sent one without its option table and figures. -/
theorem fromDict_asDict (spec : LabSpec) : fromDict spec.asDict = .ok spec.emptied := by
  rw [asDict, fromDict_dict, construct_baseAsDict]

end LabSpec

-----------------------------------------------------------------------------------------
-- Submission
-----------------------------------------------------------------------------------------

structure Submission where
  labSpec : LabSpec
  files : Py
  env : Py
  options : Py

namespace Submission

def asDict (sub : Submission) : Py :=
  .dict [("lab_spec", sub.labSpec.asDict), ("files", sub.files), ("env", sub.env),
    ("options", sub.options)]

def fromDict (j : Py) : Except Raised Submission := do
  let files ← j.getItem (.str "files")
  let labSpec ← LabSpec.fromDict (← j.getItem (.str "lab_spec"))
  let env ← j.getItem (.str "env")
  let options ← j.getItem (.str "options")
  return ⟨labSpec, files, env, options⟩

/-- Submissions survive the wire, up to the parts of the specification that are not sent. -/
theorem fromDict_asDict (sub : Submission)
    : fromDict sub.asDict = .ok { sub with labSpec := sub.labSpec.emptied } := by
  change (do
    let labSpec ← LabSpec.fromDict sub.labSpec.asDict
    return Submission.mk labSpec sub.files sub.env sub.options) = _
  rw [LabSpec.fromDict_asDict]
  rfl

end Submission

-----------------------------------------------------------------------------------------
-- SubmissionResult
-----------------------------------------------------------------------------------------

/-- The variables that the loop of the constructor changes: `v`, unbound at first, `r`, and
the dictionary `files`, which a figure function may change.
-/
structure Figures where
  files : Py
  v : Option Py := none
  r : List Py := []

/-- What a figure function sees: the variables of the constructor and of its loop, where
`self` has the submission, the files and the status as its attributes, and `get_value` reads
`f`.
-/
structure Scope extends Figures where
  submission : Submission
  status : Py
  i : Py
  f : Py

/-- The interpreter of the runner. A figure function may read its whole scope and change the
files; it leaves the submission, the status and the loop's own variables alone.
-/
abbrev Interpreter : Type := Library.Interpreter Scope Py

/-- `extract_from_first_csv_line_by_field`: `None` when the file has no data row. -/
def extractFromFirstCsvLineByField (interpreter : Interpreter) (fileContents field : Py)
    : Except Raised Py := do
  let text ←
    match fileContents with
    | .none => .ok ""
    | contents => contents.text "initial_value must be str or None"
  match ← Csv.dictRows text with
  | [] => return .none
  | row :: _ => interpreter.float (← row.getItem field)

/-- Programs that evaluate expressions: the state lists the texts handed to `eval`. -/
abbrev Evaluating : Type → Type := Program Raised (List String)

open Program (lift raise modify)

/-- `v = eval(expression)`. -/
def evaluate (interpreter : Interpreter) (expression : Py) (scope : Scope)
    : Evaluating Figures := do
  match expression with
  | .str text =>
      modify (· ++ [text])
      let (outcome, files) := interpreter.eval text scope
      let v ← lift outcome
      return { scope.toFigures with v := some v, files := files }
  | _ => raise ⟨.typeError, "eval() arg 1 must be a string, bytes or code object"⟩

/-- The branches of the constructor's loop. A figure with neither `field` nor `function`
keeps the value of the figure before it.
-/
def figureValue (interpreter : Interpreter) (scope : Scope) : Evaluating Figures := do
  if ← lift (scope.i.contains (.str "field")) then
    let field ← lift (scope.i.getItem (.str "field"))
    let v ← lift (extractFromFirstCsvLineByField interpreter scope.f field)
    return { scope.toFigures with v := some v }
  else if ← lift (scope.i.contains (.str "function")) then
    let function ← lift (scope.i.getItem (.str "function"))
    evaluate interpreter function scope
  else
    return scope.toFigures

/-- One round of the constructor's loop. -/
def figure (interpreter : Interpreter) (submission : Submission) (status : Py)
    (before : Figures) (i : Py)
    : Evaluating Figures := do
  let file ← lift (i.getItem (.str "file"))
  let f ← lift (before.files.getItem file)
  let after ← figureValue interpreter ⟨before, submission, status, i, f⟩
  let name ← lift (i.getItem (.str "name"))
  match after.v with
  | some value =>
      return { after with r := after.r ++ [.dict [("name", name), ("value", value)]] }
  | none =>
      raise ⟨.unboundLocalError, "local variable 'v' referenced before assignment"⟩

/-- The loop of the constructor over the figures that the specification asks for. -/
def computeFigures (interpreter : Interpreter) (submission : Submission) (files status : Py)
    : Evaluating Figures := do
  let figures ← lift (submission.labSpec .figuresOfMerit).iterate
  figures.foldlM (figure interpreter submission status) { files := files }

structure SubmissionResult where
  submission : Submission
  files : Py
  status : Py
  figuresOfMerit : Py

namespace SubmissionResult

/-- The parameters of `__init__`. -/
def parameters : List String := ["submission", "files", "status"]

/-- `__init__`. -/
def init (interpreter : Interpreter) (submission : Submission) (files status : Py)
    : Evaluating SubmissionResult := do
  let after ← computeFigures interpreter submission files status
  return ⟨submission, after.files, status, .list after.r⟩

/-- The constructor fails exactly when its figures do. -/
theorem init_outcome (interpreter : Interpreter) (sub : Submission)
    (files status : Py) (evaluated : List String)
    : ((init interpreter sub files status).run evaluated).1
      = ((computeFigures interpreter sub files status).run evaluated).1.map
          fun after => ⟨sub, after.files, status, .list after.r⟩ := by
  unfold init
  rw [Program.run_bind]
  rcases (computeFigures interpreter sub files status).run evaluated
    with ⟨outcome | outcome, after⟩ <;> rfl

def asDict (result : SubmissionResult) : Py :=
  .dict [("submission", result.submission.asDict), ("files", result.files),
    ("status", result.status), ("figures_of_merit", result.figuresOfMerit)]

/-- `_fromdict`: it calls the constructor with the four keywords listed here. -/
def fromDict (interpreter : Interpreter) (j : Py) : Evaluating SubmissionResult := do
  let submission ← lift (Submission.fromDict (← lift (j.getItem (.str "submission"))))
  let files ← lift (j.getItem (.str "files"))
  let status ← lift (j.getItem (.str "status"))
  let _ ← lift (j.getItem (.str "figures_of_merit"))
  lift (checkKeywords "__init__()" parameters
    ["submission", "files", "status", "figures_of_merit"])
  init interpreter submission files status

end SubmissionResult

end PMKVLab.Runner
