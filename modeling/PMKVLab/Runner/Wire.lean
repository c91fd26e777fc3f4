import PMKVLab.Runner.Records

/-! What decoding does to records that crossed the wire: results are never decoded, and a
decoded specification keeps whatever option table and figures its sender put in.
-/

namespace PMKVLab.Runner

open PMKVLab.Library

-----------------------------------------------------------------------------------------
-- Results
-----------------------------------------------------------------------------------------

/-- Decoding the encoded result gives it back, up to the parts of the specification that
are not sent.
-/
def SurvivesWire (interpreter : Interpreter) (result : SubmissionResult) : Prop :=
  ∃ received,
    ((SubmissionResult.fromDict interpreter result.asDict).run []).1 = .ok received
    ∧ received.files = result.files
    ∧ received.status = result.status
    ∧ received.figuresOfMerit = result.figuresOfMerit
    ∧ received.submission.files = result.submission.files
    ∧ received.submission.env = result.submission.env
    ∧ received.submission.options = result.submission.options
    ∧ ∀ field, field ≠ .validOptions → field ≠ .figuresOfMerit
      → received.submission.labSpec field = result.submission.labSpec field

/-- The constructor has no parameter for the figures that the decoder passes on. -/
theorem checkKeywords_figuresOfMerit
    : checkKeywords "__init__()" SubmissionResult.parameters
        ["submission", "files", "status", "figures_of_merit"]
      = .error ⟨.typeError,
          "__init__() got an unexpected keyword argument 'figures_of_merit'"⟩ := by
  decide

/-- The decoder fails on every encoded result, after decoding the submission in it. -/
theorem SubmissionResult.fromDict_asDict (interpreter : Interpreter)
    (result : SubmissionResult) (evaluated : List String)
    : (SubmissionResult.fromDict interpreter result.asDict).run evaluated
      = (.error ⟨.typeError,
          "__init__() got an unexpected keyword argument 'figures_of_merit'"⟩, evaluated) := by
  have submission : result.asDict.getItem (.str "submission") = .ok result.submission.asDict :=
    rfl
  unfold SubmissionResult.fromDict
  rw [submission, Program.run_bind_of_ok (Program.run_lift _ _),
    Submission.fromDict_asDict, Program.run_bind_of_ok (Program.run_lift _ _),
    checkKeywords_figuresOfMerit]
  rfl

/-- No result survives the wire. Witness: the decoder's call of the constructor. -/
theorem no_result_survives_wire (interpreter : Interpreter) (result : SubmissionResult)
    : ¬ SurvivesWire interpreter result := by
  rintro ⟨received, decoded, _⟩
  rw [SubmissionResult.fromDict_asDict] at decoded
  cases decoded

/-- A specification with the given figures and nothing else of interest. -/
def plainSpec (figures : Py) : LabSpec
  | .repo => .str "lab.git"
  | .outputFiles => .list []
  | .inputFiles => .list []
  | .runCmd => .list [.str "make"]
  | .referenceTag => .str "master"
  | .figuresOfMerit => figures
  | field => field.default.getD .none

/-- The interpreter that reads no number and evaluates every expression to `None`. -/
def plainInterpreter : Interpreter where
  toFloat _ := none
  eval _ scope := (.ok .none, scope.files)
  str := Py.typeName
  repr := Py.typeName
  toInt _ := .error ⟨.valueError, "invalid literal for int() with base 10"⟩
  decimal := Char.isDigit

/-- The result of a successful run without output files. -/
def plainResult : SubmissionResult where
  submission := ⟨plainSpec (.list []), .dict [], .dict [], .dict []⟩
  files := .dict [("STDOUT", .str ""), ("STDERR", .str "")]
  status := .str "success"
  figuresOfMerit := .list []

/-- Even the plainest result raises `TypeError` on the way back. -/
theorem plainResult_fails
    : ((SubmissionResult.fromDict plainInterpreter plainResult.asDict).run []).1
      = .error ⟨.typeError, "__init__() got an unexpected keyword argument 'figures_of_merit'"⟩
      ∧ ¬ SurvivesWire plainInterpreter plainResult := by
  have fails
      : ((SubmissionResult.fromDict plainInterpreter plainResult.asDict).run []).1
        = .error ⟨.typeError,
            "__init__() got an unexpected keyword argument 'figures_of_merit'"⟩ := by
    rw [SubmissionResult.fromDict_asDict]
  refine ⟨fails, ?_⟩
  rintro ⟨received, decoded, _⟩
  rw [fails] at decoded
  cases decoded

-----------------------------------------------------------------------------------------
-- Specifications
-----------------------------------------------------------------------------------------

/-- Decoding `entries` as a specification empties its option table and its figures and
keeps the rest, so that no result built around the decoded submission evaluates anything.
-/
structure StripsExecutableParts (entries : List (String × Py)) : Prop where
  stripped : ∃ spec, LabSpec.fromDict (.dict entries) = .ok spec
    ∧ spec .validOptions = .dict []
    ∧ spec .figuresOfMerit = .list []
    ∧ ∀ field, field ≠ .validOptions → field ≠ .figuresOfMerit
      → entries.lookup field.name = some (spec field)
  evaluatesNothing : ∀ interpreter payload sub files status,
    payload.getItem (.str "lab_spec") = .ok (.dict entries)
    → Submission.fromDict payload = .ok sub
    → ((SubmissionResult.init interpreter sub files status).run []).2 = []

/-- The specification of a decoded submission is the decoded `lab_spec` entry. -/
theorem Submission.fromDict_labSpec {payload j : Py} {sub : Submission}
    (entry : payload.getItem (.str "lab_spec") = .ok j)
    (decoded : Submission.fromDict payload = .ok sub)
    : LabSpec.fromDict j = .ok sub.labSpec := by
  unfold Submission.fromDict at decoded
  obtain ⟨_, _, decoded⟩ := except_bind_eq_ok.mp decoded
  obtain ⟨sent, found, decoded⟩ := except_bind_eq_ok.mp decoded
  have same : sent = j := Except.ok.inj (found.symm.trans entry)
  obtain ⟨labSpec, decodedSpec, decoded⟩ := except_bind_eq_ok.mp decoded
  obtain ⟨_, _, decoded⟩ := except_bind_eq_ok.mp decoded
  obtain ⟨_, _, decoded⟩ := except_bind_eq_ok.mp decoded
  cases decoded
  rw [← same]
  exact decodedSpec

/-- `text` is the `function` entry of one of the figures that the specification lists. -/
def FromFigures (spec : LabSpec) (text : String) : Prop :=
  ∃ figures, (spec .figuresOfMerit).iterate = .ok figures
    ∧ ∃ i ∈ figures, i.getItem (.str "function") = .ok (.str text)

/-- `eval` adds its own text to what was evaluated. -/
theorem evaluate_keeps (interpreter : Interpreter) {expression : Py} (scope : Scope)
    {allowed : String → Prop} (own : ∀ text, expression = .str text → allowed text)
    : (evaluate interpreter expression scope).Keeps
        fun evaluated => ∀ text ∈ evaluated, allowed text := by
  unfold evaluate
  split
  · next expression text =>
      refine Program.Keeps.bind ?_ fun _ => (Program.keeps_lift _).bind fun _ =>
        Program.keeps_pure _
      intro evaluated holds other member
      rcases List.mem_append.mp member with earlier | last
      · exact holds other earlier
      · rw [List.mem_singleton.mp last]
        exact own text rfl
  · exact Program.keeps_raise _

/-- One round of the constructor's loop evaluates nothing but its own `function` entry. -/
theorem figure_keeps (interpreter : Interpreter) (sub : Submission) (status : Py)
    (before : Figures) {i : Py} {allowed : String → Prop}
    (own : ∀ text, i.getItem (.str "function") = .ok (.str text) → allowed text)
    : (figure interpreter sub status before i).Keeps
        fun evaluated => ∀ text ∈ evaluated, allowed text := by
  have value (f : Py)
      : (figureValue interpreter ⟨before, sub, status, i, f⟩).Keeps
          fun evaluated => ∀ text ∈ evaluated, allowed text := by
    refine Program.keeps_lift_bind fun hasField _ => ?_
    split
    · exact Program.keeps_lift_bind fun _ _ => (Program.keeps_lift _).bind fun _ =>
        Program.keeps_pure _
    · refine Program.keeps_lift_bind fun hasFunction _ => ?_
      split
      · refine Program.keeps_lift_bind fun function entry => ?_
        exact evaluate_keeps interpreter _ fun text same => own text (same ▸ entry)
      · exact Program.keeps_pure _
  refine Program.keeps_lift_bind fun file _ => Program.keeps_lift_bind fun f _ => ?_
  refine (value f).bind fun after => Program.keeps_lift_bind fun name _ => ?_
  cases after.v with
  | none => exact Program.keeps_raise _
  | some value => exact Program.keeps_pure _

/-- Whatever a constructor evaluates stands in the specification of its submission. -/
theorem evaluated_from_figures (interpreter : Interpreter) (sub : Submission)
    (files status : Py)
    : ∀ text ∈ ((SubmissionResult.init interpreter sub files status).run []).2,
      FromFigures sub.labSpec text := by
  have computes : (computeFigures interpreter sub files status).Keeps
      fun evaluated => ∀ text ∈ evaluated, FromFigures sub.labSpec text := by
    refine Program.keeps_lift_bind fun figures listed =>
      Program.keeps_foldlM (fun i member before => ?_) _
    exact figure_keeps interpreter sub status before
      fun text own => ⟨figures, listed, i, member, own⟩
  have kept : (SubmissionResult.init interpreter sub files status).Keeps
      fun evaluated => ∀ text ∈ evaluated, FromFigures sub.labSpec text :=
    computes.bind fun r => Program.keeps_pure _
  exact kept [] (by simp)

/-- The executable parts are stripped exactly when the sender left them empty. Witness: the
decoder returns the tuple its arguments describe.
-/
theorem fromDict_strips_iff (entries : List (String × Py))
    (named : (entries.map Prod.fst).Perm Field.names)
    : StripsExecutableParts entries
      ↔ entries.lookup "valid_options" = some (.dict [])
        ∧ entries.lookup "figures_of_merit" = some (.list []) := by
  obtain ⟨spec, built, fields⟩ := LabSpec.construct_of_perm named
  have decoded : LabSpec.fromDict (.dict entries) = .ok spec := by
    rw [LabSpec.fromDict_dict, built]
  have options : entries.lookup "valid_options" = some (spec .validOptions) :=
    fields .validOptions
  have figures : entries.lookup "figures_of_merit" = some (spec .figuresOfMerit) :=
    fields .figuresOfMerit
  constructor
  · rintro ⟨⟨other, again, noOptions, noFigures, _⟩, _⟩
    have same : other = spec := Except.ok.inj (again.symm.trans decoded)
    rw [options, figures, ← same, noOptions, noFigures]
    exact ⟨rfl, rfl⟩
  · rintro ⟨noOptions, noFigures⟩
    have emptyOptions := Option.some.inj (options.symm.trans noOptions)
    have emptyFigures := Option.some.inj (figures.symm.trans noFigures)
    refine ⟨⟨spec, decoded, emptyOptions, emptyFigures, fun field _ _ => fields field⟩, ?_⟩
    intro interpreter payload sub files status entry received
    have sent := Submission.fromDict_labSpec entry received
    have same : sub.labSpec = spec := Except.ok.inj (sent.symm.trans decoded)
    refine List.eq_nil_iff_forall_not_mem.mpr fun text evaluated => ?_
    obtain ⟨figures, listed, i, member, _⟩ :=
      evaluated_from_figures interpreter sub files status text evaluated
    rw [same, emptyFigures] at listed
    cases listed
    cases member

/-- The equivalence applies to the entries of every named tuple. -/
theorem plainSpec_strips : StripsExecutableParts (plainSpec (.list [])).baseAsDict :=
  (fromDict_strips_iff (plainSpec (.list [])).baseAsDict (by decide)).mpr ⟨rfl, rfl⟩

/-- A specification whose only figure evaluates an expression of the sender's choice. -/
def armedSpec : LabSpec :=
  plainSpec (.list [.dict [("file", .str "STDOUT"), ("function", .str "exit()"),
    ("name", .str "figure")]])

/-- A payload with the armed specification. -/
def armedPayload : Py :=
  .dict [("lab_spec", .dict armedSpec.baseAsDict), ("files", .dict []), ("env", .dict []),
    ("options", .dict [])]

/-- The sent expression reaches `eval` when a result is built around the decoded payload. -/
theorem armedPayload_is_evaluated
    : (∃ sub, Submission.fromDict armedPayload = .ok sub
        ∧ ((SubmissionResult.init plainInterpreter sub (.dict [("STDOUT", .str "")])
            (.str "success")).run []).2 = ["exit()"])
      ∧ ¬ StripsExecutableParts armedSpec.baseAsDict := by
  refine ⟨⟨_, rfl, rfl⟩, ?_⟩
  rintro ⟨⟨spec, decoded, _, noFigures, _⟩, _⟩
  cases decoded
  cases noFigures

end PMKVLab.Runner
